import TrashClear.CopyToFile

/-!
# Copying a file

`Utils.copyFile` opens its source and hands the stream to `copyToFile`, which makes room
for the destination only then.  The destination may be the source.

* `copyToFile_cases`: how `copyToFile` ends, and that it touches the destination alone.
* `copyFile_copies`: what the answer says, and what is left of the source.
-/

namespace TrashClear.Utils

open Java Disk Run FileSystem

/-! ## The function -/

/-- How a file is read: whether it can be opened, what the reads cut a content into, and
after how many of them one fails. -/
structure Reading where
  opens : Bool
  pieces : List UInt8 → List (List UInt8)
  failsAfter : Option Nat
  flatten_pieces : ∀ content, (pieces content).flatten = content

def Reading.stream (reading : Reading) (content : List UInt8) : InputStream :=
  match reading.failsAfter with
  | none => ⟨reading.pieces content, false⟩
  | some n => ⟨(reading.pieces content).take n, true⟩

/-- What there is to read from the source.  It is open before the destination is, so it can
be read when it was deleted; a file that could not be deleted is emptied by the opening of
the destination. -/
def delivered (env : Environment) (srcFile : JPath) (destFile : Destination)
    (content : List UInt8) : List UInt8 :=
  if srcFile = destFile.path ∧ env.deletesOld = false then [] else content

/-- Copy a file.  A source that is not there is not copied, and the exception of one that
cannot be opened is printed. -/
def copyFile (env : Environment) (reading : Reading) (srcFile : JPath) (destFile : Destination)
    (files : Tree) : Bool × Tree :=
  match files.lookup srcFile with
  | some (.file content) =>
      if reading.opens then
        copyToFile env (reading.stream (delivered env srcFile destFile content)) destFile files
      else (false, files)
  | _ => (false, files)

/-! ## What a copy touches -/

/-- The destination, and missing directories on the way to it. -/
structure Touches (destFile : Destination) (files files' : Tree) : Prop where
  keeps : ∀ q e, q ≠ destFile.path → files.lookup q = some e → files'.lookup q = some e
  adds : ∀ q e, q ≠ destFile.path → files.lookup q = none → files'.lookup q = some e →
    e = .dir ∧ q <+: destFile.path.dropLast

variable {env : Environment} {inputStream : InputStream} {destFile : Destination}
  {files files' files'' : Tree}

theorem Touches.refl (destFile : Destination) (files : Tree) : Touches destFile files files where
  keeps _ _ _ h := h
  adds _ _ _ hnone hsome := absurd hsome (by simp [hnone])

theorem Touches.trans (h : Touches destFile files files') (h' : Touches destFile files' files'') :
    Touches destFile files files'' where
  keeps q e hq hsome := h'.keeps q e hq (h.keeps q e hq hsome)
  adds q e hq hnone hsome := by
    cases hmiddle : files'.lookup q with
    | none => exact h'.adds q e hq hmiddle hsome
    | some d =>
        have hsame := h'.keeps q d hq hmiddle
        rw [hsome] at hsame
        exact h.adds q e hq hnone (hmiddle.trans hsame.symm)

/-- Changes of the destination alone. -/
theorem touches_of_others (h : ∀ q, q ≠ destFile.path → files'.lookup q = files.lookup q) :
    Touches destFile files files' where
  keeps q e hq hsome := (h q hq).trans hsome
  adds q e hq hnone hsome := by
    rw [h q hq, hnone] at hsome
    cases hsome

theorem touches_mkdirs (destFile : Destination) (files : Tree) :
    Touches destFile files (files.mkdirs destFile.path.dropLast) where
  keeps q e _ hsome := extends_mkdirs files _ q e hsome
  adds _ _ _ hnone hsome := mkdirs_new hnone hsome

theorem touches_delete (destFile : Destination) (files : Tree) :
    Touches destFile files (files.delete destFile.path) :=
  touches_of_others fun _ hq => lookup_delete_ne hq

theorem touches_put (destFile : Destination) (files : Tree) (e : Entry (List UInt8)) :
    Touches destFile files (files.put destFile.path e) :=
  touches_of_others fun _ hq => lookup_put_ne hq e

/-- The parent is prepared and the destination opened, or not. -/
theorem touches_open (env : Environment) (destFile : Destination) (files : Tree) :
    Touches destFile files
      (succeeds (do prepare env destFile; openOutput env destFile) files).2 := by
  have hparent : Touches destFile files
      (left (prepareParent env destFile destFile.path.dropLast files)) := by
    unfold prepareParent
    rw [run_get_bind]
    by_cases habsent : files.lookup destFile.path.dropLast = none
    · rw [if_pos habsent]
      exact touches_mkdirs destFile files
    · rw [if_neg habsent]
      by_cases hold : files.lookup destFile.path ≠ none ∧ env.deletesOld = true
      · rw [if_pos hold]
        exact touches_delete destFile files
      · rw [if_neg hold]
        exact .refl destFile files
  have hprepare : Touches destFile files (left (prepare env destFile files)) := by
    unfold prepare Destination.getParentFile
    by_cases h : destFile.hasParent = true
    · rw [if_pos h]
      exact hparent
    · rw [if_neg h]
      exact .refl destFile files
  have hopen (files : Tree) : Touches destFile files (left (openOutput env destFile files)) := by
    unfold openOutput
    rw [run_get_bind]
    by_cases hopens : env.opens = true ∧ files.Open destFile.path
    · rw [if_pos hopens]
      exact touches_put destFile files _
    · rw [if_neg hopens]
      exact .refl destFile files
  have hleft (attempt : Attempt Unit) (files : Tree) :
      (succeeds attempt files).2 = left (attempt files) := by
    unfold succeeds
    cases attempt files <;> rfl
  rw [hleft]
  cases hrun : prepare env destFile files with
  | error e files' =>
      rw [run_bind_of_error hrun]
      rwa [hrun] at hprepare
  | ok a files' =>
      rw [run_bind_of_ok hrun]
      rw [hrun] at hprepare
      exact hprepare.trans (hopen files')

/-- All operations of a copy succeed. -/
structure Smooth (env : Environment) (inputStream : InputStream) (destFile : Destination) :
    Prop where
  hasParent : destFile.hasParent = true
  opens : env.opens = true
  noFault : NoFault env inputStream 0 inputStream.pieces.length
  flushes : env.flushes = true
  closes : env.closes = true

/-- **How `copyToFile` ends**: the stream is copied, or the destination is deleted if it can
be. -/
theorem copyToFile_cases (env : Environment) (inputStream : InputStream)
    (hdest : files.lookup destFile.path ≠ some .dir)
    (hway : ∀ q c, q <+: destFile.path.dropLast → files.lookup q ≠ some (.file c)) :
    (Smooth env inputStream destFile ∧ ∃ files', Touches destFile files files' ∧
        files'.lookup destFile.path = some (.file inputStream.pieces.flatten) ∧
        copyToFile env inputStream destFile files = (true, files')) ∨
      (¬ Smooth env inputStream destFile ∧ ∃ files', Touches destFile files files' ∧
        files'.lookup destFile.path ≠ some .dir ∧
        copyToFile env inputStream destFile files =
          (false, if env.deletesLast then files'.delete destFile.path else files')) := by
  have htouches := touches_open env destFile files
  unfold copyToFile
  rcases run_open env hdest hway with
    ⟨hparent, hopens, files₁, hopen, hrun⟩ | ⟨hclosed, files₁, hnot, hrun⟩
  · rw [hrun] at htouches
    have hafter {content : List UInt8} {files₂ : Tree}
        (h : files₁.Writes destFile.path content files₂) : Touches destFile files files₂ ∧
          files₂.lookup destFile.path = some (.file content) := by
      refine ⟨htouches.trans (touches_of_others fun q hq => ?_), ?_⟩
      · rw [h, if_neg hq, lookup_put_ne hq]
      · rw [h, if_pos rfl]
    simp only [hrun, if_true]
    rcases run_copyLoop env inputStream hopen inputStream.pieces 0 (writes_put hopen []) with
      ⟨hclear, files₂, hloop, hm⟩ | ⟨hfault, content, files₂, hloop, hm⟩
    · have hcopied : succeeds (copyLoop env inputStream destFile 0 [] inputStream.pieces)
          (files₁.put destFile.path (.file [])) = (true, files₂) := by
        unfold succeeds
        rw [hloop]
      obtain ⟨htouched, hlookup⟩ := hafter hm
      simp only [hcopied, Bool.true_and]
      by_cases hend : (env.flushes && env.closes) = true
      · obtain ⟨hflushes, hcloses⟩ := Bool.and_eq_true_iff.mp hend
        rw [hend]
        exact Or.inl ⟨⟨hparent, hopens, hclear, hflushes, hcloses⟩, files₂, htouched, hlookup, rfl⟩
      · rw [Bool.eq_false_of_not_eq_true hend]
        refine Or.inr ⟨fun h => hend ?_, files₂, htouched, ?_, rfl⟩
        · rw [h.flushes, h.closes]
          rfl
        · rw [hlookup]
          exact nofun
    · have hcopied : succeeds (copyLoop env inputStream destFile 0 [] inputStream.pieces)
          (files₁.put destFile.path (.file [])) = (false, files₂) := by
        unfold succeeds
        rw [hloop]
      obtain ⟨htouched, hlookup⟩ := hafter hm
      simp only [hcopied, Bool.false_and]
      refine Or.inr ⟨fun h => hfault h.noFault, files₂, htouched, ?_, rfl⟩
      rw [hlookup]
      exact nofun
  · rw [hrun] at htouches
    simp only [hrun, if_false, Bool.false_eq_true, Bool.false_and]
    exact Or.inr ⟨fun h => hclosed ⟨h.hasParent, h.opens⟩, files₁, htouches, hnot, rfl⟩

/-! ## The copy -/

/-- What a copy answers and leaves of a source that held `content`. -/
structure Copies (env : Environment) (reading : Reading) (srcFile : JPath)
    (destFile : Destination) (content : List UInt8) (files : Tree) (result : Bool)
    (files' : Tree) : Prop where
  answer : result = true ↔ reading.opens = true ∧
    Smooth env (reading.stream (delivered env srcFile destFile content)) destFile
  copied : result = true → srcFile ≠ destFile.path ∨ env.deletesOld = true →
    files'.lookup destFile.path = some (.file content)
  -- a file that was copied onto itself although it could not be deleted
  emptied : result = true → srcFile = destFile.path → env.deletesOld = false →
    files'.lookup destFile.path = some (.file [])
  cleaned : result = false → reading.opens = true → env.deletesLast = true →
    files'.lookup destFile.path = none
  source : srcFile ≠ destFile.path → files'.lookup srcFile = some (.file content)
  touches : Touches destFile files files'
  notOpened : reading.opens = false → files' = files

variable {reading : Reading} {srcFile : JPath} {content : List UInt8}

/-- A stream that does not fail delivers everything. -/
theorem flatten_stream (h : (reading.stream content).fails = false) :
    (reading.stream content).pieces.flatten = content := by
  unfold Reading.stream at h ⊢
  cases hfails : reading.failsAfter with
  | none => exact reading.flatten_pieces content
  | some n =>
      rw [hfails] at h
      cases h

/-- **A file is copied** when all operations succeed; otherwise there is no destination, if
it can be deleted.  Every other entry stays, and so does the source unless it is the
destination. -/
theorem copyFile_copies (hsource : files.lookup srcFile = some (.file content))
    (hdest : files.lookup destFile.path ≠ some .dir)
    (hway : ∀ q c, q <+: destFile.path.dropLast → files.lookup q ≠ some (.file c)) :
    Copies env reading srcFile destFile content files
      (copyFile env reading srcFile destFile files).1
      (copyFile env reading srcFile destFile files).2 := by
  unfold copyFile
  rw [hsource]
  by_cases hopens : reading.opens = true
  · have hnotOpened {files' : Tree} : reading.opens = false → files' = files := by
      intro h
      rw [hopens] at h
      cases h
    simp only [hopens, if_true]
    rcases copyToFile_cases env (reading.stream (delivered env srcFile destFile content))
        hdest hway with
      ⟨hsmooth, files₁, htouches, hlookup, hrun⟩ | ⟨hfault, files₁, htouches, hnot, hrun⟩
    · rw [flatten_stream hsmooth.noFault.1] at hlookup
      unfold delivered at hlookup
      rw [hrun]
      exact {
        answer := ⟨fun _ => ⟨hopens, hsmooth⟩, fun _ => rfl⟩
        copied := fun _ hkept => by
          rwa [if_neg fun hboth => hkept.elim (absurd hboth.1) (by simp [hboth.2])] at hlookup
        emptied := fun _ hself hundeleted => by rwa [if_pos ⟨hself, hundeleted⟩] at hlookup
        cleaned := nofun
        source := fun hne => htouches.keeps _ _ hne hsource
        touches := htouches
        notOpened := hnotOpened }
    · have hend : Touches destFile files
          (if env.deletesLast = true then files₁.delete destFile.path else files₁) := by
        by_cases hdeletes : env.deletesLast = true
        · rw [if_pos hdeletes]
          exact htouches.trans (touches_delete destFile files₁)
        · rwa [if_neg hdeletes]
      rw [hrun]
      exact {
        answer := ⟨nofun, fun h => absurd h.2 hfault⟩
        copied := nofun
        emptied := nofun
        cleaned := fun _ _ hdeletes => by
          show (if env.deletesLast = true then _ else _ : Tree).lookup destFile.path = none
          rw [if_pos hdeletes, lookup_delete_file hnot, if_pos rfl]
        source := fun hne => hend.keeps _ _ hne hsource
        touches := hend
        notOpened := hnotOpened }
  · simp only [hopens, if_false, Bool.false_eq_true]
    exact {
      answer := ⟨nofun, fun h => absurd h.1 hopens⟩
      copied := nofun
      emptied := nofun
      cleaned := fun _ h => absurd h hopens
      source := fun _ => hsource
      touches := .refl destFile files
      notOpened := fun _ => rfl }

/-- A file of two bytes in a directory `a`. -/
def twoByteFile : Tree := (FileSystem.empty.mkdirs [js "a"]).put [js "a", js "f"] (.file [1, 2])

/-- Everything succeeds but the last close. -/
def brokenClose : Environment := ⟨true, true, fun _ => none, true, false, true⟩

/-- The content is read at once. -/
def readAtOnce : Reading := ⟨true, fun content => [content], none, fun content => by simp⟩

/-- A file that is copied onto itself is lost when the close fails. -/
theorem copyFile_copies_lost :
    twoByteFile.lookup [js "a", js "f"] = some (.file [1, 2]) ∧
      (∀ q c, q <+: [js "a"] → twoByteFile.lookup q ≠ some (.file c)) ∧
      Copies brokenClose readAtOnce [js "a", js "f"] ⟨[js "a", js "f"], true⟩ [1, 2] twoByteFile
        (copyFile brokenClose readAtOnce [js "a", js "f"] ⟨[js "a", js "f"], true⟩ twoByteFile).1
        (copyFile brokenClose readAtOnce [js "a", js "f"] ⟨[js "a", js "f"], true⟩ twoByteFile).2 ∧
      (copyFile brokenClose readAtOnce [js "a", js "f"] ⟨[js "a", js "f"], true⟩
        twoByteFile).2.lookup [js "a", js "f"] = none := by
  have hsource : twoByteFile.lookup [js "a", js "f"] = some (.file [1, 2]) := rfl
  have hdest : twoByteFile.lookup [js "a", js "f"] ≠ some .dir := by decide
  have hway : ∀ q c, q <+: [js "a"] → twoByteFile.lookup q ≠ some (.file c) := by
    intro q c hq hfile
    have hdirs : ∀ q ∈ [js "a"].inits, twoByteFile.lookup q = some .dir := by decide
    rw [hdirs q ((List.mem_inits _ _).mpr hq)] at hfile
    cases hfile
  have hcopies : Copies brokenClose readAtOnce [js "a", js "f"] ⟨[js "a", js "f"], true⟩ [1, 2]
      twoByteFile _ _ := copyFile_copies hsource hdest hway
  exact ⟨hsource, hway, hcopies, hcopies.cleaned rfl rfl rfl⟩

end TrashClear.Utils
