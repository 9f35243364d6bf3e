import TrashClear.Java.Files

/-!
# Copying a stream to a file

`Utils.copyToFile` catches every exception and answers whether all went well; otherwise it
deletes its destination.  The stream and each operation on the destination may fail.

`copyToFile_truthful`: for a path with a parent component the answer is true exactly when
the destination can be opened and nothing fails after that, and then the destination holds
the bytes of the stream; else there is no destination, when it can be deleted.
-/

namespace TrashClear.Utils

open Java Disk Run FileSystem

/-! ## The function -/

/-- What a stream delivers, read by read, and whether it fails then or ends. -/
structure InputStream where
  pieces : List (List UInt8)
  fails : Bool
  deriving DecidableEq, Repr

/-- The file at a path, which was written with a parent component or without one. -/
structure Destination where
  path : JPath
  hasParent : Bool
  deriving DecidableEq, Repr

/-- `getParentFile()` is null when the path has one component. -/
def Destination.getParentFile (destFile : Destination) : Option JPath :=
  if destFile.hasParent then some destFile.path.dropLast else none

/-- Which operations on the destination succeed.  A write that fails leaves some of the
bytes that were accepted. -/
structure Environment where
  deletesOld : Bool
  opens : Bool
  writeFault : Nat → Option Nat
  flushes : Bool
  closes : Bool
  deletesLast : Bool

/-- Programs whose exceptions are caught, so that their kind does not matter. -/
abbrev Attempt := EStateM Unit Tree

/-- Run a program, and say whether it returned. -/
def succeeds (attempt : Attempt Unit) (files : Tree) : Bool × Tree :=
  match attempt files with
  | .ok _ files' => (true, files')
  | .error _ files' => (false, files')

variable (env : Environment) (inputStream : InputStream) (destFile : Destination)

/-- The parent is made, or the old file is deleted. -/
def prepareParent (parent : JPath) : Attempt Unit := do
  let files ← get
  if files.lookup parent = none then set (files.mkdirs parent)
  else if files.lookup destFile.path ≠ none ∧ env.deletesOld then
    set (files.delete destFile.path)

/-- Without a parent component the call on null throws. -/
def prepare : Attempt Unit :=
  match destFile.getParentFile with
  | none => throw ()
  | some parent => prepareParent env destFile parent

/-- `new FileOutputStream(destFile)`. -/
def openOutput : Attempt Unit := do
  let files ← get
  if env.opens ∧ files.Open destFile.path then set (files.put destFile.path (.file []))
  else throw ()

/-- The loop: read `i` on, when `copied` was written. -/
def copyLoop : Nat → List UInt8 → List (List UInt8) → Attempt Unit
  | _, _, [] => if inputStream.fails then throw () else return
  | i, copied, buffer :: pieces => do
      match env.writeFault i with
      | none => do
          modify fun files => files.put destFile.path (.file (copied ++ buffer))
          copyLoop (i + 1) (copied ++ buffer) pieces
      | some n => do
          modify fun files => files.put destFile.path (.file ((copied ++ buffer).take n))
          throw ()

/-- Copy data from a source stream to `destFile`. -/
def copyToFile (files : Tree) : Bool × Tree :=
  let opened := succeeds (do prepare env destFile; openOutput env destFile) files
  let copied :=
    if opened.1 then succeeds (copyLoop env inputStream destFile 0 [] inputStream.pieces) opened.2
    else opened
  let result := copied.1 && env.flushes && env.closes
  (result, if !result && env.deletesLast then copied.2.delete destFile.path else copied.2)

/-! ## The copy -/

variable {env inputStream destFile} {files files' : Tree}

/-- A path that is no directory can be deleted. -/
theorem lookup_delete_file {p : JPath} (h : files.lookup p ≠ some .dir) (q : JPath) :
    (files.delete p).lookup q = if q = p then none else files.lookup q := by
  have hp : p ≠ [] := by
    intro hnil
    exact h (by rw [hnil, lookup_nil])
  exact lookup_delete hp (children_eq_nil h) q

/-- The destination can be opened once its parent is prepared. -/
theorem run_prepareParent (env : Environment)
    (hdest : files.lookup destFile.path ≠ some .dir)
    (hway : ∀ q c, q <+: destFile.path.dropLast → files.lookup q ≠ some (.file c)) :
    ∃ files', prepareParent env destFile destFile.path.dropLast files = .ok () files' ∧
      files'.Open destFile.path := by
  have hp : destFile.path ≠ [] := by
    intro hnil
    exact hdest (by rw [hnil, lookup_nil])
  have hlength : destFile.path.dropLast.length < destFile.path.length := by
    have hpos := List.length_pos_of_ne_nil hp
    rw [List.length_dropLast]
    omega
  unfold prepareParent
  rw [run_get_bind]
  by_cases habsent : files.lookup destFile.path.dropLast = none
  · refine ⟨files.mkdirs destFile.path.dropLast, ?_, hp, lookup_mkdirs hway, fun hdir => ?_⟩
    · rw [if_pos habsent]
      rfl
    · cases hold : files.lookup destFile.path with
      | none =>
          have hle := (mkdirs_new hold hdir).2.length_le
          omega
      | some e =>
          have hsame := extends_mkdirs files destFile.path.dropLast _ e hold
          exact hdest (hold.trans (hsame.symm.trans hdir))
  · have hdir : files.lookup destFile.path.dropLast = some .dir := by
      rcases hentry : files.lookup destFile.path.dropLast with _ | c | _
      · exact absurd hentry habsent
      · exact absurd hentry (hway _ c List.prefix_rfl)
      · rfl
    rw [if_neg habsent]
    by_cases hold : files.lookup destFile.path ≠ none ∧ env.deletesOld = true
    · have hne : destFile.path.dropLast ≠ destFile.path := by
        intro heq
        rw [heq] at hlength
        omega
      refine ⟨files.delete destFile.path, ?_, hp, ?_, ?_⟩
      · rw [if_pos hold]
        rfl
      · rw [lookup_delete_file hdest, if_neg hne, hdir]
      · rw [lookup_delete_file hdest, if_pos rfl]
        exact fun h => by cases h
    · refine ⟨files, ?_, hp, hdir, hdest⟩
      rw [if_neg hold]
      rfl

/-- No read fails, and none of `n` writes from the `i`th on. -/
def NoFault (env : Environment) (inputStream : InputStream) (i n : Nat) : Prop :=
  inputStream.fails = false ∧ ∀ j < n, env.writeFault (i + j) = none

theorem noFault_succ {i n : Nat} : NoFault env inputStream i (n + 1) ↔
    env.writeFault i = none ∧ NoFault env inputStream (i + 1) n := by
  unfold NoFault
  constructor
  · intro h
    obtain ⟨hfails, hwrites⟩ := h
    refine ⟨hwrites 0 (by omega), hfails, fun j hj => ?_⟩
    have hnext := hwrites (j + 1) (by omega)
    rwa [← Nat.add_assoc, Nat.add_right_comm] at hnext
  · intro h
    obtain ⟨hfirst, hfails, hwrites⟩ := h
    refine ⟨hfails, fun j hj => ?_⟩
    cases j with
    | zero => exact hfirst
    | succ j =>
        rw [← Nat.add_assoc, Nat.add_right_comm]
        exact hwrites j (by omega)

/-- A write that succeeds. -/
theorem copyLoop_of_none {i : Nat} (hfault : env.writeFault i = none) (copied buffer : List UInt8)
    (pieces : List (List UInt8)) (files' : Tree) :
    copyLoop env inputStream destFile i copied (buffer :: pieces) files' =
      copyLoop env inputStream destFile (i + 1) (copied ++ buffer) pieces
        (files'.put destFile.path (.file (copied ++ buffer))) := by
  rw [copyLoop, hfault]
  rfl

/-- A write that fails. -/
theorem copyLoop_of_some {i n : Nat} (hfault : env.writeFault i = some n)
    (copied buffer : List UInt8) (pieces : List (List UInt8)) (files' : Tree) :
    copyLoop env inputStream destFile i copied (buffer :: pieces) files' =
      .error () (files'.put destFile.path (.file ((copied ++ buffer).take n))) := by
  rw [copyLoop, hfault]
  rfl

/-- **The loop** writes everything when nothing fails; else it throws, and the destination
holds something. -/
theorem run_copyLoop (env : Environment) (inputStream : InputStream)
    (hopen : files.Open destFile.path) (pieces : List (List UInt8)) (i : Nat)
    {copied : List UInt8} (hm : files.Writes destFile.path copied files') :
    (NoFault env inputStream i pieces.length ∧ ∃ files'',
        copyLoop env inputStream destFile i copied pieces files' = .ok () files'' ∧
          files.Writes destFile.path (copied ++ pieces.flatten) files'') ∨
      (¬ NoFault env inputStream i pieces.length ∧ ∃ content files'',
        copyLoop env inputStream destFile i copied pieces files' = .error () files'' ∧
          files.Writes destFile.path content files'') := by
  induction pieces generalizing i copied files' with
  | nil =>
      unfold copyLoop NoFault
      rw [List.flatten_nil, List.append_nil]
      by_cases hfails : inputStream.fails = true
      · refine Or.inr ⟨fun h => ?_, copied, files', ?_, hm⟩
        · rw [hfails] at h
          cases h.1
        · rw [if_pos hfails]
          rfl
      · refine Or.inl ⟨⟨by simpa using hfails, fun j hj => by cases hj⟩, files', ?_, hm⟩
        rw [if_neg hfails]
        rfl
  | cons buffer pieces ih =>
      rw [List.length_cons, noFault_succ]
      cases hfault : env.writeFault i with
      | some n =>
          rw [copyLoop_of_some hfault]
          refine Or.inr ⟨fun h => ?_, (copied ++ buffer).take n, _, rfl, hm.put hopen _⟩
          cases h.1
      | none =>
          rw [copyLoop_of_none hfault, List.flatten_cons, ← List.append_assoc]
          simpa only [true_and] using ih (i + 1) (hm.put hopen (copied ++ buffer))

/-! ## The answer -/

variable (env inputStream destFile)

/-- What the answer says about the copy. -/
structure Reports (result : Bool) (files' : Tree) : Prop where
  answer : result = true ↔ env.opens = true ∧ inputStream.fails = false ∧
    (∀ i < inputStream.pieces.length, env.writeFault i = none) ∧
    env.flushes = true ∧ env.closes = true
  copied : result = true →
    files'.lookup destFile.path = some (.file inputStream.pieces.flatten)

/-- Without success there is no destination. -/
def Clean (result : Bool) (files' : Tree) : Prop :=
  result = false → files'.lookup destFile.path = none

variable {env inputStream destFile}

/-- The destination is opened when it has a parent component and can be opened. -/
theorem run_open (env : Environment)
    (hdest : files.lookup destFile.path ≠ some .dir)
    (hway : ∀ q c, q <+: destFile.path.dropLast → files.lookup q ≠ some (.file c)) :
    (destFile.hasParent = true ∧ env.opens = true ∧ ∃ files' : Tree, files'.Open destFile.path ∧
        succeeds (do prepare env destFile; openOutput env destFile) files =
          (true, files'.put destFile.path (.file []))) ∨
      (¬ (destFile.hasParent = true ∧ env.opens = true) ∧ ∃ files' : Tree,
        files'.lookup destFile.path ≠ some .dir ∧
          succeeds (do prepare env destFile; openOutput env destFile) files = (false, files')) := by
  by_cases hparent : destFile.hasParent = true
  · have hprepare : prepare env destFile =
        prepareParent env destFile destFile.path.dropLast := by
      unfold prepare Destination.getParentFile
      rw [if_pos hparent]
    obtain ⟨files', hrun, hopen⟩ := run_prepareParent env hdest hway
    unfold succeeds
    rw [hprepare, run_bind_of_ok hrun, openOutput, run_get_bind]
    by_cases hopens : env.opens = true
    · rw [if_pos ⟨hopens, hopen⟩]
      exact Or.inl ⟨hparent, hopens, files', hopen, rfl⟩
    · rw [if_neg fun h => hopens h.1]
      exact Or.inr ⟨fun h => hopens h.2, files', hopen.2.2, rfl⟩
  · have hprepare : prepare env destFile files = .error () files := by
      unfold prepare Destination.getParentFile
      rw [if_neg hparent]
      rfl
    unfold succeeds
    rw [run_bind_of_error hprepare]
    exact Or.inr ⟨fun h => hparent h.1, files, hdest, rfl⟩

/-- A false answer is right when something failed. -/
theorem reports_false (h : ¬ (env.opens = true ∧ inputStream.fails = false ∧
      (∀ i < inputStream.pieces.length, env.writeFault i = none) ∧
      env.flushes = true ∧ env.closes = true)) :
    Reports env inputStream destFile false files' :=
  ⟨⟨nofun, fun hall => absurd hall h⟩, nofun⟩

/-- The last deletion leaves nothing. -/
theorem clean_deleted (hdeletes : env.deletesLast = true)
    (hnot : files'.lookup destFile.path ≠ some .dir) :
    Clean destFile false
      (if !false && env.deletesLast then files'.delete destFile.path else files') := by
  intro _
  rw [hdeletes]
  show (files'.delete destFile.path).lookup destFile.path = none
  rw [lookup_delete_file hnot, if_pos rfl]

/-- **The answer is truthful** for a destination that is a file or nothing, and whose
parent is there or can be made; without success nothing is left when it can be deleted. -/
theorem copyToFile_truthful (hparent : destFile.hasParent = true)
    (hdest : files.lookup destFile.path ≠ some .dir)
    (hway : ∀ q c, q <+: destFile.path.dropLast → files.lookup q ≠ some (.file c)) :
    Reports env inputStream destFile (copyToFile env inputStream destFile files).1
        (copyToFile env inputStream destFile files).2 ∧
      (env.deletesLast = true → Clean destFile (copyToFile env inputStream destFile files).1
        (copyToFile env inputStream destFile files).2) := by
  have hfile {content : List UInt8} {opened files'' : Tree}
      (hwrites : opened.Writes destFile.path content files'') :
      files''.lookup destFile.path ≠ some .dir := by
    rw [hwrites, if_pos rfl]
    exact fun h => by cases h
  unfold copyToFile
  rcases run_open env hdest hway with
    ⟨-, hopens, files', hopen, hrun⟩ | ⟨hclosed, files', hnot, hrun⟩
  · simp only [hrun, if_true]
    rcases run_copyLoop env inputStream hopen inputStream.pieces 0
        (FileSystem.writes_put hopen []) with
      ⟨⟨hfails, hfaults⟩, files'', hloop, hwrites⟩ | ⟨hsome, content, files'', hloop, hwrites⟩
    · have hcopied : succeeds (copyLoop env inputStream destFile 0 [] inputStream.pieces)
          (files'.put destFile.path (.file [])) = (true, files'') := by
        unfold succeeds
        rw [hloop]
      have hwritten : ∀ i < inputStream.pieces.length, env.writeFault i = none := by
        simpa using hfaults
      simp only [hcopied, Bool.true_and]
      by_cases hend : (env.flushes && env.closes) = true
      · obtain ⟨hflushes, hcloses⟩ := Bool.and_eq_true_iff.mp hend
        rw [hend]
        refine ⟨⟨⟨fun _ => ⟨hopens, hfails, hwritten, hflushes, hcloses⟩, fun _ => rfl⟩,
          fun _ => ?_⟩, fun _ => nofun⟩
        show files''.lookup destFile.path = _
        rw [hwrites, if_pos rfl]
        rfl
      · rw [Bool.eq_false_of_not_eq_true hend]
        refine ⟨reports_false fun h => hend ?_,
          fun hdeletes => clean_deleted hdeletes (hfile hwrites)⟩
        exact Bool.and_eq_true_iff.mpr h.2.2.2
    · have hcopied : succeeds (copyLoop env inputStream destFile 0 [] inputStream.pieces)
          (files'.put destFile.path (.file [])) = (false, files'') := by
        unfold succeeds
        rw [hloop]
      simp only [hcopied, Bool.false_and]
      refine ⟨reports_false fun h => hsome ⟨h.2.1, ?_⟩,
        fun hdeletes => clean_deleted hdeletes (hfile hwrites)⟩
      simpa using h.2.2.1
  · simp only [hrun, if_false, Bool.false_eq_true, Bool.false_and]
    exact ⟨reports_false fun h => hclosed ⟨hparent, h.1⟩,
      fun hdeletes => clean_deleted hdeletes hnot⟩

/-- An empty file `f` in a directory `a`. -/
def oldFile : Tree := (FileSystem.empty.mkdirs [js "a"]).put [js "a", js "f"] (.file [])

/-- Files in this directory can be written, but not deleted. -/
def undeletable : Environment := ⟨false, true, fun _ => none, true, true, false⟩

/-- A stream that fails after one byte. -/
def brokenStream : InputStream := ⟨[[1]], true⟩

theorem copyToFile_truthful_old : oldFile.lookup [js "a", js "f"] ≠ some .dir ∧
    (∀ q c, q <+: [js "a"] → oldFile.lookup q ≠ some (.file c)) ∧
    Reports undeletable brokenStream ⟨[js "a", js "f"], true⟩
        (copyToFile undeletable brokenStream ⟨[js "a", js "f"], true⟩ oldFile).1
        (copyToFile undeletable brokenStream ⟨[js "a", js "f"], true⟩ oldFile).2 ∧
      (undeletable.deletesLast = true → Clean ⟨[js "a", js "f"], true⟩
        (copyToFile undeletable brokenStream ⟨[js "a", js "f"], true⟩ oldFile).1
        (copyToFile undeletable brokenStream ⟨[js "a", js "f"], true⟩ oldFile).2) := by
  have hdest : oldFile.lookup [js "a", js "f"] ≠ some .dir := by decide
  have hway : ∀ q c, q <+: [js "a"] → oldFile.lookup q ≠ some (.file c) := by
    intro q c hq hfile
    have hdirs : ∀ q ∈ [js "a"].inits, oldFile.lookup q = some .dir := by decide
    rw [hdirs q ((List.mem_inits _ _).mpr hq)] at hfile
    cases hfile
  exact ⟨hdest, hway, copyToFile_truthful rfl hdest hway⟩

/-- The byte that was copied stays when the file cannot be deleted. -/
theorem not_clean_old : ¬ Clean ⟨[js "a", js "f"], true⟩
    (copyToFile undeletable brokenStream ⟨[js "a", js "f"], true⟩ oldFile).1
    (copyToFile undeletable brokenStream ⟨[js "a", js "f"], true⟩ oldFile).2 := by
  intro h
  have hgone := h rfl
  have hleft : (copyToFile undeletable brokenStream ⟨[js "a", js "f"], true⟩ oldFile).2.lookup
      [js "a", js "f"] = some (.file [1]) := rfl
  rw [hleft] at hgone
  cases hgone

end TrashClear.Utils
