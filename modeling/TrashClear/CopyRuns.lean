import TrashClear.CopyDirectory

/-!
# Copying a directory again and again

A series of calls of `copyDirectiory` between the same two directories, each of which may
fail at any stream operation.

* `Settled` says what the answers of some calls tell about the files; it holds of one call
  (`settled_call`) and of calls in a row (`Settled.trans`).
* `copyCalls_settled`: it holds of every series.
-/

namespace TrashClear.FileUtil

open Java Disk Run Files FileSystem

/-- A call of a series: how directories are listed, how deep the recursion may go, and
which stream operations fail. -/
structure CopyCall where
  order : Order
  depth : Nat
  faults : List (Option Nat)

/-- A series of calls, whose exceptions are caught: the answers and the files after it. -/
def copyCalls (sourceDir targetDir : JPath) :
    List CopyCall → Tree → List (Except Stop Unit) × Tree
  | [], files => ([], files)
  | call :: calls, files =>
      let result := copyDirectiory call.order call.depth sourceDir targetDir ⟨files, call.faults⟩
      let rest := copyCalls sourceDir targetDir calls (left result).files
      (answer result :: rest.1, rest.2)

/-- The answer of a call that was interrupted while `n` bytes of the file at `w` were on
the disk. -/
def interruptedAt (sourceDir targetDir w : JPath) (n : Nat) : Except Stop Unit :=
  .error (.io (.transfer (sourceDir ++ w) (targetDir ++ w) n))

/-- What the answers of calls tell about the files. -/
structure Settled (sourceDir targetDir : JPath) (answers : List (Except Stop Unit))
    (before after : Tree) : Prop where
  source : ∀ w, after.lookup (sourceDir ++ w) = before.lookup (sourceDir ++ w)
  keeps : before.Extends after
  -- an interrupted file was not there, and keeps what was on the disk
  interrupted : ∀ w n, interruptedAt sourceDir targetDir w n ∈ answers →
    ∃ c, before.lookup (sourceDir ++ w) = some (.file c) ∧
      before.lookup (targetDir ++ w) = none ∧ n ≤ c.length ∧
      after.lookup (targetDir ++ w) = some (.file (c.take n))
  once : ∀ w, answers.Pairwise fun a b => ∀ n k,
    a = interruptedAt sourceDir targetDir w n → b ≠ interruptedAt sourceDir targetDir w k
  -- any other file is there whole, at the latest when a call has returned
  whole : ∀ w c, before.lookup (sourceDir ++ w) = some (.file c) →
    before.lookup (targetDir ++ w) = none →
    (∀ n, interruptedAt sourceDir targetDir w n ∉ answers) →
    after.lookup (targetDir ++ w) = some (.file c) ∨
      after.lookup (targetDir ++ w) = none ∧ .ok () ∉ answers
  noOther : ∀ w d, after.lookup (targetDir ++ w) = some (.file d) →
    before.lookup (targetDir ++ w) = some (.file d) ∨
      before.lookup (targetDir ++ w) = none ∧
        ∃ c, before.lookup (sourceDir ++ w) = some (.file c) ∧ d <+: c
  -- a new directory at the target is one of the source
  directories : ∀ w, before.lookup (targetDir ++ w) = none →
    after.lookup (targetDir ++ w) = some .dir → before.lookup (sourceDir ++ w) = some .dir
  -- what is new outside of the target is a directory on the way to it
  elsewhere : ∀ q e, before.lookup q = none → after.lookup q = some e →
    targetDir <+: q ∨ q <+: targetDir ∧ e = .dir

section Series

variable {sourceDir targetDir : JPath} {answers answers' : List (Except Stop Unit)}
  {before middle after : Tree}

theorem settled_nil (sourceDir targetDir : JPath) (files : Tree) :
    Settled sourceDir targetDir [] files files where
  source _ := rfl
  keeps := Extends.refl files
  interrupted _ _ h := absurd h List.not_mem_nil
  once _ := List.Pairwise.nil
  whole _ _ _ hnone _ := Or.inr ⟨hnone, List.not_mem_nil⟩
  noOther _ _ hd := Or.inl hd
  directories _ hnone hsome := absurd hsome (by simp [hnone])
  elsewhere _ _ hnone hsome := absurd hsome (by simp [hnone])

/-- **Calls in a row.** -/
theorem Settled.trans (h : Settled sourceDir targetDir answers before middle)
    (h' : Settled sourceDir targetDir answers' middle after) :
    Settled sourceDir targetDir (answers ++ answers') before after where
  source w := (h'.source w).trans (h.source w)
  keeps := h.keeps.trans h'.keeps
  interrupted w n hmem := by
    rcases List.mem_append.mp hmem with hmem | hmem
    · obtain ⟨c, hsource, hnone, hn, hleft⟩ := h.interrupted w n hmem
      exact ⟨c, hsource, hnone, hn, h'.keeps _ _ hleft⟩
    · obtain ⟨c, hsource, hnone, hn, hleft⟩ := h'.interrupted w n hmem
      refine ⟨c, (h.source w).symm.trans hsource, ?_, hn, hleft⟩
      by_contra hsome
      exact h.keeps.ne_none hsome hnone
  once w := by
    refine List.pairwise_append.mpr ⟨h.once w, h'.once w, ?_⟩
    intro a ha b hb n k hfirst hsecond
    subst hfirst hsecond
    obtain ⟨c, _, _, _, hleft⟩ := h.interrupted w n ha
    obtain ⟨d, _, hnone, _, _⟩ := h'.interrupted w k hb
    rw [hleft] at hnone
    cases hnone
  whole w c hsource hnone hnot := by
    have hfirst := h.whole w c hsource hnone fun n hmem => hnot n (List.mem_append_left _ hmem)
    rcases hfirst with hwhole | ⟨hstill, hfailed⟩
    · exact Or.inl (h'.keeps _ _ hwhole)
    · have hsecond := h'.whole w c ((h.source w).trans hsource) hstill
        fun n hmem => hnot n (List.mem_append_right _ hmem)
      rcases hsecond with hwhole | ⟨hnone', hfailed'⟩
      · exact Or.inl hwhole
      · exact Or.inr ⟨hnone', fun hmem => (List.mem_append.mp hmem).elim hfailed hfailed'⟩
  noOther w d hd := by
    rcases h'.noOther w d hd with hmiddle | ⟨hnone, c, hsource, hbegins⟩
    · exact h.noOther w d hmiddle
    · refine Or.inr ⟨?_, c, (h.source w).symm.trans hsource, hbegins⟩
      by_contra hsome
      exact h.keeps.ne_none hsome hnone
  directories w hnone hsome := by
    cases hmiddle : middle.lookup (targetDir ++ w) with
    | none => exact (h.source w).symm.trans (h'.directories w hmiddle hsome)
    | some d => exact h.directories w hnone (h'.keeps.lookup_eq hmiddle hsome)
  elsewhere q e hnone hsome := by
    cases hmiddle : middle.lookup q with
    | none => exact h'.elsewhere q e hmiddle hsome
    | some d => exact h.elsewhere q e hnone (h'.keeps.lookup_eq hmiddle hsome)

/-- An overlay with at most one broken file, and the answer that tells of it. -/
theorem settled_of_overlay {broken : Option (JPath × List UInt8)} {answer : Except Stop Unit}
    (hapart : Apart sourceDir targetDir) (h : Overlay sourceDir targetDir broken before after)
    (hbroken : ∀ w d, broken = some (targetDir ++ w, d) →
      ∃ n, answer = interruptedAt sourceDir targetDir w n ∧
        ∃ c, before.lookup (sourceDir ++ w) = some (.file c) ∧ d = c.take n)
    (hinterrupted : ∀ w n, answer = interruptedAt sourceDir targetDir w n →
      ∃ c, before.lookup (sourceDir ++ w) = some (.file c) ∧
        before.lookup (targetDir ++ w) = none ∧ n ≤ c.length ∧
        after.lookup (targetDir ++ w) = some (.file (c.take n)))
    (hreturned : answer = .ok () → ∀ w c, before.lookup (sourceDir ++ w) = some (.file c) →
      after.lookup (targetDir ++ w) ≠ none) :
    Settled sourceDir targetDir [answer] before after where
  source := h.source hapart
  keeps := h.keeps
  interrupted w n hmem := hinterrupted w n (List.mem_singleton.mp hmem).symm
  once w := List.pairwise_singleton _ _
  whole w c hsource hnone hnot := by
    cases hentry : after.lookup (targetDir ++ w) with
    | none =>
        refine Or.inr ⟨rfl, fun hmem => ?_⟩
        exact hreturned (List.mem_singleton.mp hmem).symm w c hsource hentry
    | some e =>
        rcases h.target hentry with hold | ⟨-, hnew | ⟨d, hd, -⟩⟩
        · rw [hnone] at hold
          cases hold
        · exact Or.inl (hnew.symm.trans hsource)
        · obtain ⟨n, hanswer, -⟩ := hbroken w d hd
          exact absurd (List.mem_singleton.mpr hanswer.symm) (hnot n)
  noOther w d hd := by
    rcases h.target hd with hold | ⟨hnone, hnew | ⟨d', hd', heq⟩⟩
    · exact Or.inl hold
    · exact Or.inr ⟨hnone, d, hnew, List.prefix_rfl⟩
    · obtain ⟨n, -, c, hsource, rfl⟩ := hbroken w d' hd'
      cases heq
      exact Or.inr ⟨hnone, c, hsource, List.take_prefix n c⟩
  directories w hnone hsome := by
    rcases h.target hsome with hold | ⟨-, hsource | ⟨d, -, hfile⟩⟩
    · rw [hnone] at hold
      cases hold
    · exact hsource
    · cases hfile
  elsewhere q e hnone hsome := by
    have horigin := h.adds q e hnone hsome
    cases horigin with
    | onTheWay _ hbegins _ => exact Or.inr ⟨hbegins, rfl⟩
    | source w _ _ => exact Or.inl (List.prefix_append _ _)
    | broken w _ _ => exact Or.inl (List.prefix_append _ _)

/-- **One call.** -/
theorem settled_call (order : Order) (depth : Nat) {m : Machine}
    (hapart : Apart sourceDir targetDir) (hdir : m.files.lookup sourceDir = some .dir) :
    Settled sourceDir targetDir [answer (copyDirectiory order depth sourceDir targetDir m)] m.files
      (left (copyDirectiory order depth sourceDir targetDir m)).files := by
  have houtcome := copyDirectiory_outcome order depth hapart hdir
  generalize copyDirectiory order depth sourceDir targetDir m = result at houtcome
  cases houtcome with
  | returned m' hoverlay hcovered =>
      refine settled_of_overlay hapart hoverlay nofun nofun fun _ w c hsource => ?_
      exact hcovered w c trivial hsource
  | stopped e m' hstop hoverlay =>
      refine settled_of_overlay hapart hoverlay nofun (fun w n h => ?_) nofun
      cases h
      exact absurd rfl (hstop _ _ n)
  | interrupted w c n m' hsource hnone hn hoverlay hleft =>
      refine settled_of_overlay hapart hoverlay (fun w' d h => ?_) (fun w' k h => ?_) nofun
      · obtain ⟨hw, rfl⟩ := Prod.mk.inj (Option.some.inj h)
        obtain rfl := List.append_cancel_left hw
        exact ⟨n, rfl, c, hsource, rfl⟩
      · unfold interruptedAt at h
        have hparts := Stop.io.inj (Except.error.inj h)
        injection hparts with hw _ hk
        obtain rfl := List.append_cancel_left hw
        subst hk
        exact ⟨c, hsource, hnone, hn, hleft⟩

/-- **A series of calls** between two directories that are apart.  A file at which a call was
interrupted keeps for ever what was on the disk then; every other file that was not there
is there whole once a call has returned; and nothing else changes. -/
theorem copyCalls_settled (hapart : Apart sourceDir targetDir) (calls : List CopyCall)
    {files : Tree} (hdir : files.lookup sourceDir = some .dir) :
    Settled sourceDir targetDir (copyCalls sourceDir targetDir calls files).1 files
      (copyCalls sourceDir targetDir calls files).2 := by
  induction calls generalizing files with
  | nil => exact settled_nil sourceDir targetDir files
  | cons call calls ih =>
      have hfirst := settled_call call.order call.depth (m := ⟨files, call.faults⟩) hapart hdir
      exact hfirst.trans (ih (hfirst.keeps _ _ hdir))

end Series

/-- The first call is interrupted at the only file, the second one returns, and the file
keeps its one byte of two. -/
theorem copyCalls_settled_sample : sampleFiles.lookup [js "s"] = some .dir ∧
      (copyCalls [js "s"] [js "t"] [⟨.kept, 1, sampleFaults⟩, ⟨.kept, 1, []⟩] sampleFiles).1 =
        [interruptedAt [js "s"] [js "t"] [js "f"] 1, .ok ()] ∧
      Settled [js "s"] [js "t"] [interruptedAt [js "s"] [js "t"] [js "f"] 1, .ok ()] sampleFiles
        (copyCalls [js "s"] [js "t"] [⟨.kept, 1, sampleFaults⟩, ⟨.kept, 1, []⟩] sampleFiles).2 := by
  have hdir : sampleFiles.lookup [js "s"] = some .dir := rfl
  exact ⟨hdir, rfl,
    copyCalls_settled apart_sample [⟨.kept, 1, sampleFaults⟩, ⟨.kept, 1, []⟩] hdir⟩

end TrashClear.FileUtil
