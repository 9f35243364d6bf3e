import TrashClear.FileUtil

/-!
# Copying a directory into itself

`FileUtil.copyDirectiory` makes its target before it lists its source.  With the target
inside the source the copy is copied in turn, one directory deeper each time, unless a
file stands in the way.

`terminates_iff` says exactly when the recursion ends in every order of listing: the tree
below the source has paths of bounded length then (`terminates_of_bound`), and otherwise
each call can make the next one (`unfinished_of_way`).
-/

namespace TrashClear.FileUtil

open Java Disk Run Files FileSystem

/-! ## Repeating a path -/

/-- A path `n` times in a row. -/
def repeated (r : JPath) (n : Nat) : JPath := (List.replicate n r).flatten

section Repeated

variable {r u v w : JPath}

theorem repeated_add (r : JPath) (n k : Nat) :
    repeated r (n + k) = repeated r n ++ repeated r k := by
  unfold repeated
  rw [List.replicate_add, List.flatten_append]

theorem repeated_succ (r : JPath) (n : Nat) : repeated r (n + 1) = r ++ repeated r n := by
  rw [Nat.add_comm, repeated_add]
  simp [repeated]

theorem repeated_mono (r : JPath) {n k : Nat} (h : n ≤ k) : repeated r n <+: repeated r k := by
  obtain ⟨i, rfl⟩ := Nat.exists_eq_add_of_le h
  rw [repeated_add]
  exact List.prefix_append _ _

theorem le_length_repeated (hr : r ≠ []) (n : Nat) : n ≤ (repeated r n).length := by
  have hpos := List.length_pos_of_ne_nil hr
  induction n with
  | zero => omega
  | succ n ih =>
      rw [repeated_succ, List.length_append]
      omega

/-- What starts a repeated path is a whole number of rounds and a part of the next. -/
theorem eq_repeated_append_of_prefix (n : Nat) (h : v <+: repeated r n) :
    ∃ i u, v = repeated r i ++ u ∧ u.length ≤ r.length := by
  induction n generalizing v with
  | zero =>
      refine ⟨0, [], ?_, Nat.zero_le _⟩
      exact List.prefix_nil.mp h
  | succ n ih =>
      rw [repeated_succ] at h
      rcases List.prefix_or_prefix_of_prefix h (List.prefix_append r _) with hv | ⟨t, rfl⟩
      · exact ⟨0, v, rfl, hv.length_le⟩
      · obtain ⟨i, u, rfl, hu⟩ := ih ((List.prefix_append_right_inj r).mp h)
        exact ⟨i + 1, u, by rw [repeated_succ, List.append_assoc], hu⟩

end Repeated

/-! ## When the recursion ends -/

/-- In every order of listing, and whatever stream operations fail, some depth is enough:
the recursion makes finitely many calls, since each lists finitely many entries. -/
def Terminates (files : Tree) (sourceDir targetDir : JPath) : Prop :=
  ∀ order faults, ∃ depth, ∀ m,
    copyDirectiory order depth sourceDir targetDir ⟨files, faults⟩ ≠ .error .unfinished m

/-- A run that ends with files for which `good` holds, among them those it started with. -/
structure Finishes (good : Tree → Prop) (m : Machine) (result : EStateM.Result Stop Machine Unit) :
    Prop where
  good : good (left result).files
  grows : m.files.Extends (left result).files
  ends : ∀ m', result ≠ .error .unfinished m'

section Finishes

variable {good : Tree → Prop} {m : Machine}

theorem finishes_ok (hgood : good m.files) : Finishes good m (.ok () m) :=
  ⟨hgood, Extends.refl _, fun _ h => by cases h⟩

theorem Finishes.bind {x : Files Unit} {f : Unit → Files Unit} (hx : Finishes good m (x m))
    (hf : ∀ m', good m'.files → m.files.Extends m'.files → Finishes good m' (f () m')) :
    Finishes good m ((x >>= f) m) := by
  cases hrun : x m with
  | ok a m' =>
      rw [hrun] at hx
      rw [run_bind_of_ok hrun]
      have hnext := hf m' hx.good hx.grows
      exact ⟨hnext.good, hx.grows.trans hnext.grows, hnext.ends⟩
  | error e m' =>
      rw [run_bind_of_error hrun]
      rwa [hrun] at hx

/-- A loop over entries that are there. -/
theorem Finishes.forM {body : JString → Files Unit} {p : JPath} (names : List JString)
    (hbody : ∀ name (m : Machine), good m.files → m.files.lookup (p ++ [name]) ≠ none →
      Finishes good m (body name m))
    (hgood : good m.files) (hnames : ∀ name ∈ names, m.files.lookup (p ++ [name]) ≠ none) :
    Finishes good m (names.forM body m) := by
  induction names generalizing m with
  | nil => exact finishes_ok hgood
  | cons name names ih =>
      obtain ⟨hname, hnames⟩ := List.forall_mem_cons.mp hnames
      rw [run_forM_cons]
      apply (hbody name m hgood hname).bind
      intro m' hgood' hgrows
      apply ih hgood'
      exact fun other hother => hgrows.ne_none (hnames other hother)

end Finishes

/-! ## A tree of bounded height -/

section Bounded

variable {files : Tree} {sourceDir targetDir : JPath} {P : JPath → Prop}

/-- The files of a run that started with `files`: below the source there are only paths for
which `P` holds. -/
structure Within (files : Tree) (sourceDir : JPath) (P : JPath → Prop) (files' : Tree) : Prop where
  grows : files.Extends files'
  paths : ∀ w, files'.lookup (sourceDir ++ w) ≠ none → P w

/-- A copy of the entry at `u` adds nothing but what leads to its target. -/
theorem Within.added (hclosed : ∀ w v, P w → sourceDir ++ v <+: targetDir ++ w → P v)
    {files' files'' : Tree} {u : JPath} (h : Within files sourceDir P files') (hu : P u)
    (hgrows : files'.Extends files'')
    (hnew : ∀ q e, files'.lookup q = none → files''.lookup q = some e → q <+: targetDir ++ u) :
    Within files sourceDir P files'' := by
  refine ⟨h.grows.trans hgrows, fun w hw => ?_⟩
  by_cases hold : files'.lookup (sourceDir ++ w) = none
  · obtain ⟨e, he⟩ := Option.ne_none_iff_exists'.mp hw
    exact hclosed u w hu (hnew _ e hold he)
  · exact h.paths w hold

theorem finishes_copyFile (hclosed : ∀ w v, P w → sourceDir ++ v <+: targetDir ++ w → P v)
    {u : JPath} {m : Machine} (hm : Within files sourceDir P m.files)
    (hu : m.files.lookup (sourceDir ++ u) ≠ none) :
    Finishes (Within files sourceDir P) m (copyFile (sourceDir ++ u) (targetDir ++ u) m) := by
  have hwrites {c : List UInt8} {m' : Machine} (hnone : m.files.lookup (targetDir ++ u) = none)
      (h : m.files.Writes (targetDir ++ u) c m'.files) :
      m.files.Extends m'.files ∧ Within files sourceDir P m'.files := by
    refine ⟨h.extends hnone, hm.added hclosed (hm.paths u hu) (h.extends hnone) ?_⟩
    intro q e hold hnew
    rw [(h.eq_of_new hold hnew).1]
  have houtcome := copyFile_outcome (sourceDir ++ u) (targetDir ++ u) m
  generalize copyFile (sourceDir ++ u) (targetDir ++ u) m = result at houtcome
  cases houtcome with
  | skipped => exact finishes_ok hm
  | notOpened p m' hfiles =>
      refine ⟨?_, ?_, fun m'' h => by cases h⟩
      · rw [left, hfiles]
        exact hm
      · rw [left, hfiles]
        exact Extends.refl _
  | copied c m' hnone _ h =>
      obtain ⟨hgrows, hwithin⟩ := hwrites hnone h
      exact ⟨hwithin, hgrows, fun m'' h => by cases h⟩
  | interrupted c n m' hnone _ _ h =>
      obtain ⟨hgrows, hwithin⟩ := hwrites hnone h
      exact ⟨hwithin, hgrows, fun m'' h => by cases h⟩

/-- **With paths of bounded length** below the source the recursion ends. -/
theorem finishes_copyDirectiory (order : Order)
    (hclosed : ∀ w v, P w → sourceDir ++ v <+: targetDir ++ w → P v) {bound : Nat}
    (hbound : ∀ files', Within files sourceDir P files' →
      ∀ w, files'.lookup (sourceDir ++ w) ≠ none → w.length ≤ bound)
    (depth : Nat) {u : JPath} {m : Machine} (hm : Within files sourceDir P m.files)
    (hu : m.files.lookup (sourceDir ++ u) ≠ none) (hdepth : bound < depth + u.length) :
    Finishes (Within files sourceDir P) m
      (copyDirectiory order depth (sourceDir ++ u) (targetDir ++ u) m) := by
  induction depth generalizing u m with
  | zero =>
      have hle := hbound _ hm u hu
      omega
  | succ depth ih =>
      unfold copyDirectiory
      have hmkdirs : Within files sourceDir P (m.files.mkdirs (targetDir ++ u)) :=
        hm.added hclosed (hm.paths u hu) (extends_mkdirs _ _) fun q e hold hnew =>
          (mkdirs_new hold hnew).2
      have hfirst : Finishes (Within files sourceDir P) m (Files.mkdirs (targetDir ++ u) m) :=
        ⟨hmkdirs, extends_mkdirs _ _, fun m' h => by cases h⟩
      apply hfirst.bind
      intro m' hm' _
      by_cases hdir : m'.files.lookup (sourceDir ++ u) = some .dir
      · rw [run_bind_of_ok (run_listFiles hdir)]
        refine Finishes.forM _ (fun name m'' hm'' hname => ?_) hm' fun name hname =>
          order.mem_list.mp hname
        rw [List.append_assoc] at hname
        rcases hentry : m''.files.lookup (sourceDir ++ (u ++ [name])) with _ | content | _
        · exact absurd hentry hname
        · rw [run_copyEntry_file (by rwa [List.append_assoc]), List.append_assoc, List.append_assoc]
          exact finishes_copyFile hclosed hm'' hname
        · rw [run_copyEntry_dir (by rwa [List.append_assoc]), List.append_assoc, List.append_assoc]
          apply ih hm'' hname
          rw [List.length_append, List.length_singleton]
          omega
      · rw [run_bind_of_error (run_listFiles_null hdir)]
        exact ⟨hm', Extends.refl _, fun m'' h => by cases h⟩

theorem terminates_of_bound (hclosed : ∀ w v, P w → sourceDir ++ v <+: targetDir ++ w → P v)
    {bound : Nat} (hbound : ∀ files', Within files sourceDir P files' →
      ∀ w, files'.lookup (sourceDir ++ w) ≠ none → w.length ≤ bound)
    (hpaths : ∀ w, files.lookup (sourceDir ++ w) ≠ none → P w)
    (hsource : files.lookup sourceDir = some .dir) : Terminates files sourceDir targetDir := by
  intro order faults
  have hm : Within files sourceDir P (⟨files, faults⟩ : Machine).files := ⟨Extends.refl _, hpaths⟩
  have hu : files.lookup (sourceDir ++ []) ≠ none := by
    rw [List.append_nil, hsource]
    exact Option.some_ne_none _
  have hends := (finishes_copyDirectiory order hclosed hbound (bound + 1) hm hu (by simp)).ends
  rw [List.append_nil, List.append_nil] at hends
  exact ⟨bound + 1, hends⟩

/-- A target that is not inside the source: copies are not deeper than what is copied. -/
theorem terminates_of_not_inside (houtside : ∀ r, r ≠ [] → targetDir ≠ sourceDir ++ r)
    (hsource : files.lookup sourceDir = some .dir) : Terminates files sourceDir targetDir := by
  have hpaths : ∀ w, files.lookup (sourceDir ++ w) ≠ none → w.length ≤ files.height := by
    intro w hw
    have hle := length_le_height hw
    rw [List.length_append] at hle
    omega
  refine terminates_of_bound (P := fun w => w.length ≤ files.height) ?_
    (fun files' h w hw => h.paths w hw) hpaths hsource
  intro w v hw hbegins
  have hsource : sourceDir <+: targetDir ++ w := (List.prefix_append _ v).trans hbegins
  have hinside : ∃ r, sourceDir = targetDir ++ r := by
    rcases List.prefix_or_prefix_of_prefix hsource (List.prefix_append targetDir w) with
      ⟨r, hr⟩ | ⟨r, hr⟩
    · by_cases hnil : r = []
      · exact ⟨[], by rw [← hr, hnil, List.append_nil, List.append_nil]⟩
      · exact absurd hr.symm (houtside r hnil)
    · exact ⟨r, hr.symm⟩
  obtain ⟨r, rfl⟩ := hinside
  rw [List.append_assoc, List.prefix_append_right_inj] at hbegins
  have hle := hbegins.length_le
  rw [List.length_append] at hle
  omega

/-- A target inside the source, but a file where the copies would be copied to. -/
theorem terminates_of_blocked {r b : JPath} {n : Nat} {c : List UInt8}
    (hbegins : b <+: repeated r n) (hfile : files.lookup (sourceDir ++ b) = some (.file c))
    (hsource : files.lookup sourceDir = some .dir) :
    Terminates files sourceDir (sourceDir ++ r) := by
  -- every path is some rounds of `r`, and behind them no more than there was at first
  have hbound : ∀ files', Within files sourceDir
        (fun w => ∃ i u, w = repeated r i ++ u ∧ u.length ≤ max files.height r.length) files' →
      ∀ w, files'.lookup (sourceDir ++ w) ≠ none →
        w.length ≤ b.length + max files.height r.length := by
    intro files' h w hw
    have hblock := h.grows _ _ hfile
    obtain ⟨i, u, rfl, hu⟩ := h.paths w hw
    have hrounds : repeated r i <+: repeated r (n + i) := repeated_mono r (by omega)
    have hb : b <+: repeated r (n + i) := hbegins.trans (repeated_mono r (by omega))
    rw [List.length_append]
    rcases List.prefix_or_prefix_of_prefix hb hrounds with ⟨t, ht⟩ | hshort
    · -- nothing is below the file
      rw [← ht, List.append_assoc, ← List.append_assoc] at hw
      have hnil : t ++ u = [] := by
        by_contra hne
        exact hw (lookup_below_file hblock hne)
      obtain ⟨rfl, rfl⟩ := List.append_eq_nil_iff.mp hnil
      rw [← ht, List.append_nil, List.length_nil]
      omega
    · have hle := hshort.length_le
      omega
  refine terminates_of_bound ?_ hbound ?_ hsource
  · intro w v hw hv
    obtain ⟨i, u, rfl, hu⟩ := hw
    rw [List.append_assoc, List.prefix_append_right_inj, ← List.append_assoc, ← repeated_succ] at hv
    rcases List.prefix_or_prefix_of_prefix hv (List.prefix_append _ u) with hv | ⟨t, rfl⟩
    · obtain ⟨i', u', rfl, hu'⟩ := eq_repeated_append_of_prefix (i + 1) hv
      exact ⟨i', u', rfl, by omega⟩
    · have hle := ((List.prefix_append_right_inj _).mp hv).length_le
      exact ⟨i + 1, t, rfl, by omega⟩
  · intro w hw
    have hle := length_le_height hw
    rw [List.length_append] at hle
    exact ⟨0, w, rfl, by omega⟩

end Bounded

/-! ## A recursion without end -/

section Endless

variable {files : Tree} {sourceDir r : JPath}

/-- No file stands where the copies of copies are made. -/
def FreeWay (files : Tree) (sourceDir r : JPath) : Prop :=
  ∀ n w c, w <+: repeated r n → files.lookup (sourceDir ++ w) ≠ some (.file c)

/-- The entry on the way to the next copy is listed first. -/
def wayFirst (sourceDir r : JPath) : Order where
  list files p :=
    (files.children p).filter (fun name => (p ++ [name]).isPrefixOf
        (sourceDir ++ repeated r (p.length + 1))) ++
      (files.children p).filter (fun name => !(p ++ [name]).isPrefixOf
        (sourceDir ++ repeated r (p.length + 1)))
  perm _ _ := List.filter_append_perm _ _

theorem FreeWay.mkdirs (h : FreeWay files sourceDir r) (p : JPath) :
    FreeWay (files.mkdirs p) sourceDir r := by
  intro n w c hw hfile
  exact h n w c hw (file_of_mkdirs hfile)

/-- The target of every call on the way is made. -/
theorem FreeWay.lookup_mkdirs (h : FreeWay files sourceDir r)
    (hsource : files.lookup sourceDir = some .dir) {w : JPath} {n : Nat}
    (hw : w <+: repeated r n) :
    (files.mkdirs (sourceDir ++ r ++ w)).lookup (sourceDir ++ r ++ w) = some .dir := by
  apply FileSystem.lookup_mkdirs
  intro q c hq hfile
  have hway : r ++ w <+: repeated r (n + 1) := by
    rw [repeated_succ]
    exact (List.prefix_append_right_inj r).mpr hw
  rw [List.append_assoc] at hq
  rcases List.prefix_or_prefix_of_prefix hq (List.prefix_append sourceDir _) with
    ⟨t, rfl⟩ | ⟨t, rfl⟩
  · by_cases ht : t = []
    · rw [ht, List.append_nil, hfile] at hsource
      cases hsource
    · rw [lookup_below_file hfile ht] at hsource
      cases hsource
  · exact h (n + 1) t c (((List.prefix_append_right_inj _).mp hq).trans hway) hfile

/-- The first entry that is listed is the one on the way. -/
theorem wayFirst_list (hr : r ≠ []) {w : JPath} {name : JString} {n : Nat}
    (hway : w ++ [name] <+: repeated r n)
    (hthere : files.lookup (sourceDir ++ w ++ [name]) ≠ none) :
    ∃ rest, (wayFirst sourceDir r).list files (sourceDir ++ w) = name :: rest := by
  have hlength := le_length_repeated hr ((sourceDir ++ w).length + 1)
  have hway : w ++ [name] <+: repeated r ((sourceDir ++ w).length + 1) := by
    apply List.prefix_of_prefix_length_le
      (hway.trans (repeated_mono r (Nat.le_max_left n ((sourceDir ++ w).length + 1))))
      (repeated_mono r (Nat.le_max_right n _))
    simp only [List.length_append, List.length_singleton] at hlength ⊢
    omega
  have hfirst (x : JString) : (sourceDir ++ w ++ [x]).isPrefixOf
      (sourceDir ++ repeated r ((sourceDir ++ w).length + 1)) = true ↔ x = name := by
    rw [List.isPrefixOf_iff_prefix, List.append_assoc, List.prefix_append_right_inj]
    constructor
    · intro hx
      have heq : w ++ [x] = w ++ [name] :=
        (List.prefix_of_prefix_length_le hx hway (by simp)).eq_of_length (by simp)
      exact List.singleton_inj.mp (List.append_cancel_left heq)
    · intro hx
      rwa [hx]
  have hmem : name ∈ (files.children (sourceDir ++ w)).filter fun x =>
      (sourceDir ++ w ++ [x]).isPrefixOf
        (sourceDir ++ repeated r ((sourceDir ++ w).length + 1)) :=
    List.mem_filter.mpr ⟨mem_children.mpr hthere, (hfirst name).mpr rfl⟩
  obtain ⟨x, rest, hcons⟩ := List.exists_cons_of_ne_nil (List.ne_nil_of_mem hmem)
  have hx : x = name := by
    have hmem := List.mem_filter.mp (hcons ▸ List.mem_cons_self (a := x) (l := rest))
    exact (hfirst x).mp hmem.2
  rw [hx] at hcons
  exact ⟨_, congrArg (· ++ _) hcons⟩

/-- **A free way into the source** gives every call a next one. -/
theorem unfinished_of_way (hr : r ≠ []) (depth : Nat) {w : JPath} {n : Nat} {m : Machine}
    (hw : w <+: repeated r n) (hway : FreeWay m.files sourceDir r)
    (hsource : m.files.lookup sourceDir = some .dir) :
    ∃ m', copyDirectiory (wayFirst sourceDir r) depth (sourceDir ++ w) (sourceDir ++ r ++ w) m =
      .error .unfinished m' := by
  induction depth generalizing w n m with
  | zero => exact ⟨m, rfl⟩
  | succ depth ih =>
      -- the target is one round further, so the way goes on behind `w`
      have hround : r ++ w <+: repeated r (n + 1) := by
        rw [repeated_succ]
        exact (List.prefix_append_right_inj r).mpr hw
      have hpos := List.length_pos_of_ne_nil hr
      obtain ⟨s, hs⟩ : w <+: r ++ w :=
        List.prefix_of_prefix_length_le (hw.trans (repeated_mono r (Nat.le_succ n))) hround
          (by simp)
      have hlength := congrArg List.length hs
      rw [List.length_append, List.length_append] at hlength
      obtain ⟨name, s, rfl⟩ := List.exists_cons_of_length_pos (show 0 < s.length by omega)
      have hpath : sourceDir ++ r ++ w = sourceDir ++ w ++ name :: s := by
        rw [List.append_assoc, ← hs, List.append_assoc]
      have hthere := hway.lookup_mkdirs hsource hw
      have hsource' := extends_mkdirs m.files (sourceDir ++ r ++ w) _ _ hsource
      have hway' := hway.mkdirs (sourceDir ++ r ++ w)
      have hmkdirs := run_mkdirs (sourceDir ++ r ++ w) m
      generalize m.files.mkdirs (sourceDir ++ r ++ w) = files at hthere hsource' hway' hmkdirs
      rw [hpath] at hthere
      have hdir := prefix_dir (List.cons_ne_nil name s) (hthere ▸ Option.some_ne_none _)
      have hname : files.lookup (sourceDir ++ w ++ [name]) = some .dir := by
        by_cases hnil : s = []
        · rwa [hnil] at hthere
        · apply prefix_dir hnil
          have hbelow : sourceDir ++ w ++ [name] ++ s = sourceDir ++ w ++ name :: s := by simp
          rw [hbelow, hthere]
          exact Option.some_ne_none _
      have hnext : w ++ [name] <+: repeated r (n + 1) := by
        refine List.IsPrefix.trans ⟨s, ?_⟩ hround
        rw [List.append_assoc, List.singleton_append, hs]
      obtain ⟨rest, hlist⟩ := wayFirst_list hr hnext (hname ▸ Option.some_ne_none _)
      obtain ⟨m', hrun⟩ := ih (m := { m with files := files }) hnext hway' hsource'
      refine ⟨m', ?_⟩
      rw [copyDirectiory, run_bind_of_ok hmkdirs, run_bind_of_ok (run_listFiles hdir), hlist,
        run_forM_cons]
      apply run_bind_of_error
      rw [run_copyEntry_dir hname, List.append_assoc, List.append_assoc]
      exact hrun

/-- A free way from the source to a target inside it. -/
theorem not_terminates_of_way (hr : r ≠ []) (hway : FreeWay files sourceDir r)
    (hsource : files.lookup sourceDir = some .dir) :
    ¬ Terminates files sourceDir (sourceDir ++ r) := by
  intro h
  obtain ⟨depth, hends⟩ := h (wayFirst sourceDir r) []
  have hstart : ([] : JPath) <+: repeated r 0 := List.prefix_rfl
  obtain ⟨m', hrun⟩ := unfinished_of_way hr depth (m := ⟨files, []⟩) hstart hway hsource
  rw [List.append_nil, List.append_nil] at hrun
  exact hends m' hrun

end Endless

/-- **The recursion ends exactly when** the target is not inside the source, or a file
stands where the copies of copies would be made. -/
theorem terminates_iff {files : Tree} {sourceDir : JPath} (targetDir : JPath)
    (hsource : files.lookup sourceDir = some .dir) :
    Terminates files sourceDir targetDir ↔
      ¬ ∃ r, r ≠ [] ∧ targetDir = sourceDir ++ r ∧
        ∀ n w c, w <+: repeated r n → files.lookup (sourceDir ++ w) ≠ some (.file c) := by
  constructor
  · intro h hinside
    obtain ⟨r, hr, rfl, hway⟩ := hinside
    exact not_terminates_of_way hr hway hsource h
  · intro h
    by_cases hinside : ∃ r, r ≠ [] ∧ targetDir = sourceDir ++ r
    · obtain ⟨r, hr, rfl⟩ := hinside
      have hblocked : ∃ n w c, w <+: repeated r n ∧
          files.lookup (sourceDir ++ w) = some (.file c) := by
        by_contra hfree
        refine h ⟨r, hr, rfl, fun n w c hw hfile => hfree ⟨n, w, c, hw, hfile⟩⟩
      obtain ⟨n, w, c, hw, hfile⟩ := hblocked
      exact terminates_of_blocked hw hfile hsource
    · apply terminates_of_not_inside _ hsource
      exact fun r hr hinside' => hinside ⟨r, hr, hinside'⟩

/-- A directory `a`. -/
def oneDirectory : Tree := FileSystem.empty.mkdirs [js "a"]

theorem terminates_iff_nested : oneDirectory.lookup [js "a"] = some .dir ∧
    (Terminates oneDirectory [js "a"] [js "a", js "b"] ↔
      ¬ ∃ r, r ≠ [] ∧ [js "a", js "b"] = [js "a"] ++ r ∧
        ∀ n w c, w <+: repeated r n → oneDirectory.lookup ([js "a"] ++ w) ≠ some (.file c)) :=
  ⟨by decide, terminates_iff _ (by decide)⟩

/-- The copy of `a` into `a/b` does not end. -/
theorem not_terminates_nested : ¬ Terminates oneDirectory [js "a"] [js "a", js "b"] := by
  have hway : FreeWay oneDirectory [js "a"] [js "b"] := by
    intro n w c _ hfile
    have hnone : (FileSystem.empty : Tree).lookup ([js "a"] ++ w) = none := rfl
    have hdir := (mkdirs_new hnone hfile).1
    cases hdir
  exact not_terminates_of_way (List.cons_ne_nil _ _) hway (by decide)

end TrashClear.FileUtil
