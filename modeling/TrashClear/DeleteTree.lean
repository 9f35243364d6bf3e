import TrashClear.FileUtil

/-!
# What a deleted directory leaves

`FileUtil.del` deletes everything below its directory.  The directory itself is deleted
only when there was nothing in it: the recursion leaves an emptied directory to its
caller, and the outermost call has none.

`del_removes` says what one call does; `erased_iff` reads off when nothing is left.
-/

namespace TrashClear.FileUtil

open Java Disk Run Files FileSystem

/-! ## Removing a part of the files -/

/-- The paths with `P` go away, and nothing else changes. -/
structure Removes (P : JPath → Prop) (files files' : Tree) : Prop where
  gone : ∀ q, P q → files'.lookup q = none
  kept : ∀ q, ¬ P q → files'.lookup q = files.lookup q

section Removes

variable {P Q : JPath → Prop} {files files' files'' : Tree} {p : JPath}

theorem removes_nothing (files : Tree) : Removes (fun _ => False) files files :=
  ⟨fun _ h => h.elim, fun _ _ => rfl⟩

theorem Removes.trans (h : Removes P files files') (h' : Removes Q files' files'') :
    Removes (fun q => P q ∨ Q q) files files'' := by
  refine ⟨fun q hq => ?_, fun q hq => ?_⟩
  · by_cases hQ : Q q
    · exact h'.gone q hQ
    · rw [h'.kept q hQ]
      exact h.gone q (hq.resolve_right hQ)
  · rw [h'.kept q fun hQ => hq (Or.inr hQ), h.kept q fun hP => hq (Or.inl hP)]

/-- Only paths that are there count. -/
theorem Removes.congr (h : Removes P files files')
    (hiff : ∀ q, files.lookup q ≠ none → (P q ↔ Q q)) : Removes Q files files' := by
  refine ⟨fun q hq => ?_, fun q hq => ?_⟩
  · by_cases hP : P q
    · exact h.gone q hP
    · rw [h.kept q hP]
      by_contra hsome
      exact hP ((hiff q hsome).mpr hq)
  · by_cases hP : P q
    · rw [h.gone q hP]
      by_contra hsome
      exact hq ((hiff q (Ne.symm hsome)).mp hP)
    · exact h.kept q hP

/-- What is left was there. -/
theorem Removes.lookup_ne_none (h : Removes P files files') {q : JPath}
    (hq : files'.lookup q ≠ none) : files.lookup q ≠ none := by
  by_cases hP : P q
  · exact absurd (h.gone q hP) hq
  · rwa [← h.kept q hP]

/-- A path that holds nothing is removed with all that is below it. -/
theorem removes_delete (hp : p ≠ []) (hnone : files.children p = []) :
    Removes (p <+: ·) files (files.delete p) := by
  have hone : Removes (· = p) files (files.delete p) := by
    refine ⟨fun q hq => ?_, fun q hq => ?_⟩
    · rw [FileSystem.lookup_delete hp hnone, if_pos hq]
    · rw [FileSystem.lookup_delete hp hnone, if_neg hq]
  apply hone.congr
  intro q hq
  constructor
  · intro heq
    exact heq ▸ List.prefix_rfl
  · intro hbegins
    obtain ⟨w, rfl⟩ := hbegins
    by_contra hne
    have hw : w ≠ [] := by
      intro hnil
      exact hne (by rw [hnil, List.append_nil])
    exact hq (lookup_below_of_children_nil hnone hw)

end Removes

/-! ## One call -/

section Del

variable {order : Order} {p : JPath} {m : Machine}

/-- The paths that a call removes: with nothing in the directory the directory, otherwise
all that is in it. -/
def Deleted (files : Tree) (p q : JPath) : Prop :=
  if p ≠ [] ∧ files.children p = [] then p <+: q else p <+: q ∧ q ≠ p

/-- An entry is removed with all that is below it. -/
theorem delEntry_removes {delDir : JPath → Files Unit} {name : JString}
    (hdel : m.files.lookup (p ++ [name]) = some .dir → ∃ m',
      delDir (p ++ [name]) m = .ok () m' ∧
        Removes (Deleted m.files (p ++ [name])) m.files m'.files) :
    ∃ m', delEntry delDir p name m = .ok () m' ∧ Removes (p ++ [name] <+: ·) m.files m'.files := by
  have hne : p ++ [name] ≠ [] := by simp
  unfold delEntry
  rw [run_bind_of_ok (run_isDirectory _ m)]
  by_cases hdir : m.files.lookup (p ++ [name]) = some .dir
  · obtain ⟨m', hrun, hremoves⟩ := hdel hdir
    refine ⟨{ m' with files := m'.files.delete (p ++ [name]) }, ?_, ?_⟩
    · rw [if_pos (decide_eq_true hdir)]
      exact run_bind_of_ok hrun
    · -- nothing is in the directory any more, whether it is still there or not
      have hnone : m'.files.children (p ++ [name]) = [] := by
        by_contra hsome
        obtain ⟨x, hx⟩ := List.exists_mem_of_ne_nil _ hsome
        have hthere := mem_children.mp hx
        have hbegins : p ++ [name] <+: p ++ [name] ++ [x] := List.prefix_append _ _
        apply hthere
        apply hremoves.gone
        unfold Deleted
        split
        · exact hbegins
        · exact ⟨hbegins, by simp⟩
      apply (hremoves.trans (removes_delete hne hnone)).congr
      intro q _
      refine ⟨fun h => h.elim (fun h => ?_) id, Or.inr⟩
      unfold Deleted at h
      split at h
      · exact h
      · exact h.1
  · refine ⟨{ m with files := m.files.delete (p ++ [name]) }, ?_, ?_⟩
    · rw [if_neg (by simpa using hdir)]
      rfl
    · exact removes_delete hne (children_eq_nil hdir)

/-- **The loop** removes the listed entries. -/
theorem forM_delEntry_removes {delDir : JPath → Files Unit} (names : List JString)
    (hdel : ∀ name (m' : Machine), (∀ q, m'.files.lookup q ≠ none → m.files.lookup q ≠ none) →
      m'.files.lookup (p ++ [name]) = some .dir → ∃ m'',
        delDir (p ++ [name]) m' = .ok () m'' ∧
          Removes (Deleted m'.files (p ++ [name])) m'.files m''.files) :
    ∃ m', names.forM (delEntry delDir p) m = .ok () m' ∧
      Removes (fun q => ∃ name ∈ names, p ++ [name] <+: q) m.files m'.files := by
  induction names generalizing m with
  | nil =>
      refine ⟨m, rfl, (removes_nothing m.files).congr fun q _ => ?_⟩
      simp
  | cons name names ih =>
      obtain ⟨m', hrun, hfirst⟩ := delEntry_removes (hdel name m fun q hq => hq)
      obtain ⟨m'', hrun', hrest⟩ := ih (m := m') fun other m₁ hsub =>
        hdel other m₁ fun q hq => hfirst.lookup_ne_none (hsub q hq)
      refine ⟨m'', (run_bind_of_ok hrun).trans hrun', ?_⟩
      apply (hfirst.trans hrest).congr
      intro q _
      simp

/-- **What one call removes**, when it may nest as deep as the files do. -/
theorem del_removes (order : Order) (depth : Nat) (hdir : m.files.lookup p = some .dir)
    (hdepth : ∀ w, m.files.lookup (p ++ w) ≠ none → w.length < depth) :
    ∃ m', del order depth p m = .ok () m' ∧ Removes (Deleted m.files p) m.files m'.files := by
  induction depth generalizing p m with
  | zero =>
      have hlt := hdepth [] (by rw [List.append_nil, hdir]; exact Option.some_ne_none _)
      omega
  | succ depth ih =>
      have hexists : (m.files.lookup p).isSome = true := by rw [hdir]; rfl
      have hlist : listFiles order p m = .ok (order.list m.files p) m := run_listFiles hdir
      have hlength := (order.perm m.files p).length_eq
      unfold del
      rw [run_bind_of_ok (run_fileExists p m), run_bind_of_ok (run_isDirectory p m),
        if_pos (by rw [hexists, decide_eq_true hdir]; rfl), run_bind_of_ok hlist]
      by_cases hnone : m.files.children p = []
      · have hempty : (order.list m.files p).length = 0 := by rw [hlength, hnone]; rfl
        refine ⟨{ m with files := m.files.delete p }, ?_, ?_⟩
        · rw [if_pos hempty]
          rfl
        · by_cases hp : p = []
          · -- the root stays, and there is nothing else
            have hroot : m.files.delete p = m.files := by
              unfold FileSystem.delete
              exact dif_neg fun h => h.1 hp
            show Removes _ m.files (m.files.delete p)
            rw [hroot]
            apply (removes_nothing m.files).congr
            intro q hq
            unfold Deleted
            rw [if_neg fun h => h.1 hp]
            refine ⟨False.elim, fun h => hq ?_⟩
            obtain ⟨w, rfl⟩ := h.1
            have hw : w ≠ [] := by
              intro hnil
              exact h.2 (by rw [hnil, List.append_nil])
            exact lookup_below_of_children_nil hnone hw
          · apply (removes_delete hp hnone).congr
            intro q _
            unfold Deleted
            rw [if_pos ⟨hp, hnone⟩]
      · have hsome : ¬ (order.list m.files p).length = 0 := by
          rw [hlength]
          exact fun h => hnone (List.length_eq_zero_iff.mp h)
        rw [if_neg hsome, run_bind_of_ok hlist]
        have hdel : ∀ name (m' : Machine),
            (∀ q, m'.files.lookup q ≠ none → m.files.lookup q ≠ none) →
            m'.files.lookup (p ++ [name]) = some .dir → ∃ m'',
              del order depth (p ++ [name]) m' = .ok () m'' ∧
                Removes (Deleted m'.files (p ++ [name])) m'.files m''.files := by
          intro name m' hsub hname
          apply ih hname
          intro w hw
          rw [List.append_assoc] at hw
          have hlt := hdepth _ (hsub _ hw)
          rw [List.length_append, List.length_singleton] at hlt
          omega
        obtain ⟨m', hrun, hremoves⟩ := forM_delEntry_removes (order.list m.files p) hdel
        refine ⟨m', hrun, hremoves.congr fun q hq => ?_⟩
        unfold Deleted
        rw [if_neg fun h => hnone h.2]
        constructor
        · intro h
          obtain ⟨name, -, w, rfl⟩ := h
          exact ⟨⟨[name] ++ w, by rw [List.append_assoc]⟩, by simp⟩
        · intro h
          obtain ⟨⟨w, rfl⟩, hne⟩ := h
          cases w with
          | nil => exact absurd (List.append_nil p) hne
          | cons name w =>
              refine ⟨name, order.mem_list.mpr (first_ne_none hq), w, ?_⟩
              rw [List.append_assoc]
              rfl

/-- Nothing is at `p` or below, and nothing else has changed. -/
structure Erased (p : JPath) (before after : Tree) : Prop where
  gone : ∀ w, after.lookup (p ++ w) = none
  outside : ∀ q, ¬ p <+: q → after.lookup q = before.lookup q

/-- **A directory is erased by one call exactly when** it is empty. -/
theorem erased_iff (order : Order) {depth : Nat} (hdir : m.files.lookup p = some .dir)
    (hdepth : m.files.height < depth) :
    (∃ m', del order depth p m = .ok () m' ∧ Erased p m.files m'.files ∧
        ∃ m'', del order depth p m' = .ok () m'' ∧
          ∀ q, m''.files.lookup q = m'.files.lookup q) ↔
      p ≠ [] ∧ m.files.children p = [] := by
  have hheight : ∀ w, m.files.lookup (p ++ w) ≠ none → w.length < depth := by
    intro w hw
    have hle := length_le_height hw
    rw [List.length_append] at hle
    omega
  obtain ⟨m', hrun, hremoves⟩ := del_removes order depth hdir hheight
  constructor
  · intro h
    by_contra hnot
    obtain ⟨m₁, hrun₁, herased, -⟩ := h
    rw [hrun] at hrun₁
    obtain ⟨-, rfl⟩ := EStateM.Result.ok.inj hrun₁
    -- the directory itself is still there
    have hkept : m'.files.lookup p = some .dir := by
      rw [hremoves.kept, hdir]
      unfold Deleted
      rw [if_neg hnot]
      exact fun h => h.2 rfl
    have hgone := herased.gone []
    rw [List.append_nil, hkept] at hgone
    cases hgone
  · intro h
    have hdeleted (q : JPath) : Deleted m.files p q ↔ p <+: q := by
      unfold Deleted
      rw [if_pos h]
    have hgone (w : JPath) : m'.files.lookup (p ++ w) = none :=
      hremoves.gone _ ((hdeleted _).mpr (List.prefix_append p w))
    refine ⟨m', hrun, ⟨hgone, fun q hq => ?_⟩, m', ?_, fun q => rfl⟩
    · exact hremoves.kept q fun hd => hq ((hdeleted q).mp hd)
    · -- the second call finds nothing
      have hnone : m'.files.lookup p = none := by
        have hroot := hgone []
        rwa [List.append_nil] at hroot
      cases depth with
      | zero => omega
      | succ depth =>
          unfold del
          rw [run_bind_of_ok (run_fileExists p m'), run_bind_of_ok (run_isDirectory p m'), hnone]
          rfl

end Del

/-- A directory `a` with a file. -/
def fullDirectory : Tree :=
  (FileSystem.empty.mkdirs [js "a"]).put [js "a", js "f"] (.file [])

theorem erased_iff_full : fullDirectory.lookup [js "a"] = some .dir ∧ fullDirectory.height < 3 ∧
    ((∃ m', del .kept 3 [js "a"] ⟨fullDirectory, []⟩ = .ok () m' ∧
        Erased [js "a"] fullDirectory m'.files ∧
        ∃ m'', del .kept 3 [js "a"] m' = .ok () m'' ∧
          ∀ q, m''.files.lookup q = m'.files.lookup q) ↔
      [js "a"] ≠ [] ∧ fullDirectory.children [js "a"] = []) :=
  ⟨by decide, by decide, erased_iff (m := ⟨fullDirectory, []⟩) .kept (by decide) (by decide)⟩

/-- The directory of a file stays when the file is deleted. -/
theorem not_erased_full : ∃ m', del .kept 3 [js "a"] ⟨fullDirectory, []⟩ = .ok () m' ∧
    ¬ Erased [js "a"] fullDirectory m'.files := by
  have hrun : ∃ m', del .kept 3 [js "a"] ⟨fullDirectory, []⟩ = .ok () m' ∧
      m'.files.lookup [js "a"] = some .dir := ⟨_, rfl, rfl⟩
  obtain ⟨m', hrun, hleft⟩ := hrun
  refine ⟨m', hrun, fun h => ?_⟩
  have hgone := h.gone []
  rw [List.append_nil, hleft] at hgone
  cases hgone

end TrashClear.FileUtil
