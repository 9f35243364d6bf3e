import TrashClear.Java.Files
import TrashClear.Java.Zip

/-!
# Archiving a directory without a limit

`ZipUtil.ZipDir` makes the new archive, opens every entry of the listing of its directory as
a file, one after the other, and copies it a byte at a time.  A directory cannot be opened,
so a single subdirectory ends the run before the archive is closed; and an archive that lies
in the directory is listed there and copied into itself (`archivesTree_iff`).
-/

namespace TrashClear.ZipUtil

open Java Disk Run FileSystem ZipOutputStream

/-! ## The function -/

/-- The exceptions of a program that reads files and writes an archive, and a loop that has
not come to its end. -/
inductive ArchiveException
  | zip (e : ZipException)
  | fileNotFound (path : JPath)
  | unfinished
  deriving DecidableEq, Repr

/-- Programs over a zip stream that read files. -/
abbrev Archive := EStateM ArchiveException ZipOutputStream

/-- An operation of the zip stream. -/
def stream {α : Type} (operation : Zip α) : Archive α := fun out =>
  match operation out with
  | .ok a out' => .ok a out'
  | .error e out' => .error (.zip e) out'

variable (format : ZipFormat) (newZipFile : JPath) (files : Tree)

/-- What a file holds at the moment; the archive holds what has reached it. -/
def contentOf (path : JPath) (out : ZipOutputStream) : Option (List UInt8) :=
  if path = newZipFile then some (format.bytes out)
  else
    match files.lookup path with
    | some (.file content) => some content
    | _ => none

/-- `new FileInputStream(path)`. -/
def openInput (path : JPath) : Archive Unit := do
  if (contentOf format newZipFile files path (← get)).isNone then throw (.fileNotFound path)

/-- `input.read()` at a position. -/
def read (path : JPath) (position : Nat) : Archive (Option UInt8) := do
  return (contentOf format newZipFile files path (← get)).bind fun content => content[position]?

/-- The loop that copies a file byte by byte, for a number of reads. -/
def copyLoop (path : JPath) : Nat → Nat → Archive Unit
  | _, 0 => throw .unfinished
  | position, reads + 1 => do
      match ← read format newZipFile files path position with
      | none => return
      | some temp => do
          stream (write [temp])
          copyLoop path (position + 1) reads

/-- `path.getName()`. -/
def getName (path : JPath) : JString := path.getLast?.getD []

/-- The entry of one listed file. -/
def zipEntry (reads : Nat) (dirTobeZip : JPath) (name : JString) : Archive Unit := do
  openInput format newZipFile files (dirTobeZip ++ [name])
  stream (putNextEntry (getName dirTobeZip ++ js "/" ++ name))
  copyLoop format newZipFile files (dirTobeZip ++ [name]) 0 reads

/-- Archive what is listed in a directory when the new archive has been made. -/
def zipDir (order : Order) (reads : Nat) (dirTobeZip : JPath) : Archive Unit := do
  if files.Open newZipFile then
    let files := files.put newZipFile (.file [])
    if files.lookup dirTobeZip = some .dir then
      (order.list files dirTobeZip).forM (zipEntry format newZipFile files reads dirTobeZip)
    stream close
  else throw (.fileNotFound newZipFile)

/-! ## What one file adds -/

section Loop

variable {format newZipFile files} {p : JPath} {name : JString} {out out' : ZipOutputStream}

theorem run_stream_ok {α : Type} {operation : Zip α} {a : α} :
    stream operation out = .ok a out' ↔ operation out = .ok a out' := by
  unfold stream
  cases operation out with
  | ok b out'' => simp
  | error e out'' => simp

/-- A file other than the archive holds what it held. -/
theorem contentOf_of_ne {path : JPath} {content : List UInt8} (hne : path ≠ newZipFile)
    (hfile : files.lookup path = some (.file content)) (out : ZipOutputStream) :
    contentOf format newZipFile files path out = some content := by
  unfold contentOf
  rw [if_neg hne, hfile]

theorem run_read {path : JPath} {content : List UInt8} (hne : path ≠ newZipFile)
    (hfile : files.lookup path = some (.file content)) (position : Nat) (out : ZipOutputStream) :
    read format newZipFile files path position out = .ok content[position]? out := by
  show EStateM.Result.ok ((contentOf format newZipFile files path out).bind _) out = _
  rw [contentOf_of_ne hne hfile]
  rfl

/-- Enough reads copy the rest of a file. -/
theorem run_copyLoop {path : JPath} {content : List UInt8} (hne : path ≠ newZipFile)
    (hfile : files.lookup path = some (.file content)) {reads position : Nat}
    (hposition : position ≤ content.length) (hreads : content.length < position + reads)
    {e : ZipEntry} (hcurrent : out.current = some e) :
    copyLoop format newZipFile files path position reads out = .ok ()
      { out with current := some { e with data := e.data ++ content.drop position } } := by
  induction reads generalizing position out e with
  | zero => omega
  | succ reads ih =>
      unfold copyLoop
      rw [run_bind_of_ok (run_read hne hfile position out)]
      by_cases hend : position = content.length
      · rw [List.getElem?_eq_none (by omega), List.drop_of_length_le (by omega), List.append_nil,
          ← hcurrent]
        rfl
      · have hin : position < content.length := by omega
        have hwrite := run_stream_ok.mpr (run_write hcurrent [content[position]])
        rw [List.getElem?_eq_getElem hin, List.drop_eq_getElem_cons hin]
        refine (run_bind_of_ok hwrite).trans ((ih (by omega) (by omega) rfl).trans ?_)
        simp

/-- A file with a new name becomes the entry that is being written. -/
theorem run_zipEntry {reads : Nat} {content : List UInt8} (hne : p ++ [name] ≠ newZipFile)
    (hfile : files.lookup (p ++ [name]) = some (.file content)) (hreads : content.length < reads)
    (hname : getName p ++ js "/" ++ name ∉ (written out).map ZipEntry.name) :
    zipEntry format newZipFile files reads p name out = .ok ()
      { out with
        entries := written out, current := some ⟨getName p ++ js "/" ++ name, content⟩ } := by
  have hopen : openInput format newZipFile files (p ++ [name]) out = .ok () out := by
    unfold openInput
    rw [run_get_bind, contentOf_of_ne hne hfile]
    rfl
  have hcurrent : ({ out with
      entries := written out, current := some ⟨getName p ++ js "/" ++ name, []⟩ } :
        ZipOutputStream).current = some ⟨getName p ++ js "/" ++ name, []⟩ := rfl
  unfold zipEntry
  rw [run_bind_of_ok hopen,
    run_bind_of_ok (run_stream_ok.mpr (run_putNextEntry_of_new hname))]
  exact run_copyLoop hne hfile (Nat.zero_le _) (by omega) hcurrent

/-- An entry of the archive holds the file at `p/name`. -/
def Holds (files : Tree) (p : JPath) (name : JString) (e : ZipEntry) : Prop :=
  e.name = getName p ++ js "/" ++ name ∧ files.lookup (p ++ [name]) = some (.file e.data)

/-- Files with different new names become entries. -/
theorem run_zipEntries {reads : Nat} (names : List JString)
    (hfiles : ∀ name ∈ names, p ++ [name] ≠ newZipFile ∧ ∃ content : List UInt8,
      files.lookup (p ++ [name]) = some (.file content) ∧ content.length < reads)
    (hnodup : ((written out).map ZipEntry.name ++
      names.map fun name => getName p ++ js "/" ++ name).Nodup) :
    ∃ entries out', names.forM (zipEntry format newZipFile files reads p) out = .ok () out' ∧
      List.Forall₂ (Holds files p) names entries ∧ written out' = written out ++ entries := by
  induction names generalizing out with
  | nil => exact ⟨[], out, rfl, .nil, (List.append_nil _).symm⟩
  | cons name names ih =>
      obtain ⟨⟨hne, content, hfile, hreads⟩, hfiles⟩ := List.forall_mem_cons.mp hfiles
      have hname : getName p ++ js "/" ++ name ∉ (written out).map ZipEntry.name := by
        intro hmem
        exact (List.nodup_append.mp hnodup).2.2 _ hmem _ (by simp) rfl
      have hfirst : zipEntry format newZipFile files reads p name out = _ :=
        run_zipEntry hne hfile hreads hname
      have hwritten : written { out with
          entries := written out, current := some ⟨getName p ++ js "/" ++ name, content⟩ } =
            written out ++ [⟨getName p ++ js "/" ++ name, content⟩] := rfl
      have hothers : ((written { out with
          entries := written out, current := some ⟨getName p ++ js "/" ++ name, content⟩ }).map
            ZipEntry.name ++ names.map fun name => getName p ++ js "/" ++ name).Nodup := by
        rw [hwritten]
        simpa using hnodup
      obtain ⟨entries, out', hrun, hholds, hrest⟩ := ih hfiles hothers
      refine ⟨⟨getName p ++ js "/" ++ name, content⟩ :: entries, out',
        (run_bind_of_ok hfirst).trans hrun, .cons ⟨rfl, hfile⟩ hholds, ?_⟩
      rw [hrest, hwritten, List.append_assoc]
      rfl

/-! ## What a loop that returns has done -/

/-- The loop adds bytes to the entry that is being written.  It has read no more of the
archive than there is. -/
theorem copyLoop_ok {path : JPath} {reads position : Nat} {e : ZipEntry}
    (hcurrent : out.current = some e)
    (hrun : copyLoop format newZipFile files path position reads out = .ok () out') :
    ∃ data, out' = { out with current := some { e with data := e.data ++ data } } ∧
      (format.bytes out).length ≤ (format.bytes out').length ∧
      (path = newZipFile → position ≤ (format.bytes out).length →
        position + data.length ≤ (format.bytes out').length) := by
  induction reads generalizing position out e with
  | zero => cases hrun
  | succ reads ih =>
      unfold copyLoop at hrun
      obtain ⟨found, middle, hread, hrun⟩ := run_bind_ok.mp hrun
      obtain ⟨rfl, rfl⟩ := EStateM.Result.ok.inj hread
      cases hbyte : (contentOf format newZipFile files path out).bind
          fun content => content[position]? with
      | none =>
          rw [hbyte] at hrun
          obtain ⟨-, rfl⟩ := EStateM.Result.ok.inj hrun
          refine ⟨[], ?_, le_refl _, fun _ h => h⟩
          rw [List.append_nil, ← hcurrent]
      | some temp =>
          rw [hbyte] at hrun
          obtain ⟨_, middle, hwrite, hrest⟩ := run_bind_ok.mp hrun
          have hwrite := run_stream_ok.mp hwrite
          have hgrows := format.length_write _ _ _ hwrite
          rw [run_write hcurrent] at hwrite
          obtain ⟨-, rfl⟩ := EStateM.Result.ok.inj hwrite
          obtain ⟨data, hout', hgrows', hbound⟩ := ih rfl hrest
          refine ⟨temp :: data, ?_, hgrows.trans hgrows', fun hself _ => ?_⟩
          · rw [hout']
            simp
          · -- the byte was there, so the next position is in the archive too
            have hin : position < (format.bytes out).length := by
              unfold contentOf at hbyte
              rw [if_pos hself] at hbyte
              exact (List.getElem?_eq_some_iff.mp hbyte).1
            have hnext := hbound hself (by omega)
            rw [List.length_cons]
            omega

/-- One listed file becomes one entry. -/
theorem zipEntry_ok {reads : Nat}
    (hrun : zipEntry format newZipFile files reads p name out = .ok () out') :
    (contentOf format newZipFile files (p ++ [name]) out).isSome ∧ out'.closed = out.closed ∧
      (format.bytes out).length ≤ (format.bytes out').length ∧
      ∃ data, written out' = written out ++ [⟨getName p ++ js "/" ++ name, data⟩] ∧
        (p ++ [name] = newZipFile → data.length ≤ (format.bytes out').length) := by
  unfold zipEntry at hrun
  obtain ⟨_, opened, hopen, hrun⟩ := run_bind_ok.mp hrun
  unfold openInput at hopen
  rw [run_get_bind] at hopen
  split at hopen
  · cases hopen
  next hthere =>
    obtain ⟨-, rfl⟩ := EStateM.Result.ok.inj hopen
    obtain ⟨_, middle, hput, hrun⟩ := run_bind_ok.mp hrun
    have hput := run_stream_ok.mp hput
    have hgrows := format.length_put _ _ _ hput
    obtain rfl := putNextEntry_ok hput
    obtain ⟨data, rfl, hgrows', hbound⟩ := copyLoop_ok rfl hrun
    refine ⟨Option.isSome_iff_ne_none.mpr (by simpa using hthere), rfl,
      hgrows.trans hgrows', data, rfl, fun hself => ?_⟩
    have hlength := hbound hself (Nat.zero_le _)
    rwa [Nat.zero_add] at hlength

/-- Every listed file could be opened; the entry of the archive itself has no more bytes than
the archive. -/
theorem zipEntries_ok {reads : Nat} {names : List JString}
    (hrun : names.forM (zipEntry format newZipFile files reads p) out = .ok () out') :
    out'.closed = out.closed ∧ (format.bytes out).length ≤ (format.bytes out').length ∧
      written out <+: written out' ∧
      ∀ name ∈ names, (p ++ [name] ≠ newZipFile → files.lookup (p ++ [name]) ≠ some .dir) ∧
        (p ++ [name] = newZipFile → ∃ data, ⟨getName p ++ js "/" ++ name, data⟩ ∈ written out' ∧
          data.length ≤ (format.bytes out').length) := by
  induction names generalizing out with
  | nil =>
      obtain ⟨-, rfl⟩ := EStateM.Result.ok.inj hrun
      exact ⟨rfl, le_refl _, List.prefix_rfl, fun name hname => absurd hname List.not_mem_nil⟩
  | cons name names ih =>
      obtain ⟨_, middle, hfirst, hrest⟩ := run_bind_ok.mp hrun
      obtain ⟨hthere, hclosed, hgrows, data, hwritten, hbound⟩ := zipEntry_ok hfirst
      obtain ⟨hclosed', hgrows', hprefix, hothers⟩ := ih hrest
      have hmiddle : written out <+: written middle := hwritten ▸ List.prefix_append _ _
      refine ⟨hclosed'.trans hclosed, hgrows.trans hgrows', hmiddle.trans hprefix,
        List.forall_mem_cons.mpr ⟨⟨fun hne hdir => ?_, fun hself => ⟨data, ?_, ?_⟩⟩, hothers⟩⟩
      · unfold contentOf at hthere
        rw [if_neg hne, hdir] at hthere
        cases hthere
      · rw [hwritten] at hprefix
        exact hprefix.subset (List.mem_append_right _ List.mem_cons_self)
      · exact (hbound hself).trans hgrows'

end Loop

/-! ## The archive of a tree -/

/-- The name of the entry for the file at `p/w`. -/
def entryName (p w : JPath) : JString := (js "/").intercalate (getName p :: w)

/-- The run returns, the archive is closed, and for each file that is below `p` then there is
exactly one entry, with its name and its full content. -/
def ArchivesTree (order : Order) (p : JPath) : Prop :=
  ∃ reads out, zipDir format newZipFile files order reads p opened = .ok () out ∧
    out.closed = true ∧ (out.entries.map ZipEntry.name).Nodup ∧
    let files' := files.put newZipFile (.file (format.bytes out))
    ∃ ws : List JPath, ws.Nodup ∧
      (∀ w, w ∈ ws ↔ ∃ content, files'.lookup (p ++ w) = some (.file content)) ∧
      List.Forall₂ (fun w e => e.name = entryName p w ∧
        files'.lookup (p ++ w) = some (.file e.data)) ws out.entries

/-- A member of the first list has its partner in the second. -/
theorem exists_of_forall₂ {α β : Type} {R : α → β → Prop} {xs : List α} {ys : List β}
    (h : List.Forall₂ R xs ys) {x : α} (hx : x ∈ xs) : ∃ y ∈ ys, R x y := by
  induction h with
  | nil => cases hx
  | cons hhead _ ih =>
      rcases List.mem_cons.mp hx with rfl | hrest
      · exact ⟨_, List.mem_cons_self, hhead⟩
      · obtain ⟨y, hy, hxy⟩ := ih hrest
        exact ⟨y, List.mem_cons_of_mem _ hy, hxy⟩

section Flat

variable {format newZipFile files} {order : Order} {p : JPath}

theorem entryName_singleton (p : JPath) (name : JString) :
    entryName p [name] = getName p ++ js "/" ++ name := by
  rw [entryName, List.intercalate_cons_cons, List.intercalate_singleton]

/-- Without a subdirectory every listed entry is a file. -/
theorem files_of_flat (h : ∀ name, files.lookup (p ++ [name]) ≠ some .dir) :
    ∀ name ∈ order.list files p, ∃ content, files.lookup (p ++ [name]) = some (.file content) := by
  intro name hname
  have hthere := order.mem_list.mp hname
  rcases hentry : files.lookup (p ++ [name]) with _ | content | _
  · exact absurd hentry hthere
  · exact ⟨content, rfl⟩
  · exact absurd hentry (h name)

/-- Without a subdirectory the files below the directory are the listed entries. -/
theorem mem_listed_iff (hdir : files.lookup p = some .dir)
    (h : ∀ name, files.lookup (p ++ [name]) ≠ some .dir) (w : JPath) :
    (w ∈ (order.list files p).map fun name => [name]) ↔
      ∃ content, files.lookup (p ++ w) = some (.file content) := by
  constructor
  · intro hw
    obtain ⟨name, hname, rfl⟩ := List.mem_map.mp hw
    exact files_of_flat h name hname
  · intro hw
    obtain ⟨content, hcontent⟩ := hw
    cases w with
    | nil =>
        rw [List.append_nil, hdir] at hcontent
        cases hcontent
    | cons name v =>
        have hthere : files.lookup (p ++ name :: v) ≠ none := hcontent ▸ Option.some_ne_none _
        -- an entry with something below it would be a directory
        have hv : v = [] := by
          by_contra hne
          rw [← List.singleton_append, ← List.append_assoc] at hthere
          exact h name (prefix_dir hne hthere)
        rw [hv]
        exact List.mem_map_of_mem (order.mem_list.mpr (first_ne_none hthere))

/-- So many reads are enough for each of these files. -/
theorem exists_reads (names : List JString)
    (h : ∀ name ∈ names, ∃ content, files.lookup (p ++ [name]) = some (.file content)) :
    ∃ reads, ∀ name ∈ names, ∃ content : List UInt8,
      files.lookup (p ++ [name]) = some (.file content) ∧ content.length < reads := by
  induction names with
  | nil => exact ⟨0, fun name hname => absurd hname List.not_mem_nil⟩
  | cons name names ih =>
      obtain ⟨⟨content, hcontent⟩, hnames⟩ := List.forall_mem_cons.mp h
      obtain ⟨reads, hreads⟩ := ih hnames
      refine ⟨reads + content.length + 1,
        List.forall_mem_cons.mpr ⟨⟨content, hcontent, by omega⟩, fun other hother => ?_⟩⟩
      obtain ⟨found, hfound, hlength⟩ := hreads other hother
      exact ⟨found, hfound, by omega⟩

/-- Entries that hold different files have different names. -/
theorem nodup_entries {names : List JString} (hnodup : names.Nodup) {entries : List ZipEntry}
    (hholds : List.Forall₂ (Holds files p) names entries) :
    (entries.map ZipEntry.name).Nodup := by
  have hentries : names.map (fun name => getName p ++ js "/" ++ name) =
      entries.map ZipEntry.name := by
    rw [← List.forall₂_eq_eq_eq, List.forall₂_map_left_iff, List.forall₂_map_right_iff]
    exact hholds.imp fun name e hname => hname.1.symm
  rw [← hentries]
  exact hnodup.map (List.append_right_injective _)

/-- A directory of files is archived file by file, into an archive elsewhere. -/
theorem run_zipDir (hopen : files.Open newZipFile)
    (hdir : (files.put newZipFile (.file [])).lookup p = some .dir) {reads : Nat}
    (hfiles : ∀ name ∈ order.list (files.put newZipFile (.file [])) p,
      p ++ [name] ≠ newZipFile ∧ ∃ content : List UInt8,
        (files.put newZipFile (.file [])).lookup (p ++ [name]) = some (.file content) ∧
          content.length < reads) :
    ∃ out, zipDir format newZipFile files order reads p opened = .ok () out ∧
      out.closed = true ∧
      List.Forall₂ (Holds (files.put newZipFile (.file [])) p)
        (order.list (files.put newZipFile (.file [])) p) out.entries := by
  have hnames : ((order.list (files.put newZipFile (.file [])) p).map
      fun name => getName p ++ js "/" ++ name).Nodup :=
    (order.nodup_list _ p).map (List.append_right_injective _)
  obtain ⟨entries, out, hrun, hholds, hwritten⟩ : ∃ entries out,
      (order.list (files.put newZipFile (.file [])) p).forM
        (zipEntry format newZipFile (files.put newZipFile (.file [])) reads p) opened =
          .ok () out ∧
      List.Forall₂ (Holds (files.put newZipFile (.file [])) p)
        (order.list (files.put newZipFile (.file [])) p) entries ∧
      written out = entries := run_zipEntries _ hfiles hnames
  have hclose : stream close out =
      .ok () { out with entries := entries, current := none, closed := true } := by
    rw [run_stream_ok, run_close_written, hwritten]
  refine ⟨{ out with entries := entries, current := none, closed := true }, ?_, rfl, hholds⟩
  unfold zipDir
  rw [if_pos hopen]
  simp only [if_pos hdir]
  exact (run_bind_of_ok hrun).trans hclose

/-- An archive that is not below the directory leaves it as it was. -/
theorem lookup_put_elsewhere {p : JPath} (hdir : files.lookup p = some .dir)
    (hflat : ∀ name, files.lookup (p ++ [name]) ≠ some .dir) (hopen : files.Open newZipFile)
    (haway : ∀ name, newZipFile ≠ p ++ [name]) (content : List UInt8) (w : JPath) :
    (files.put newZipFile (.file content)).lookup (p ++ w) = files.lookup (p ++ w) := by
  apply lookup_put_ne
  intro hsame
  obtain ⟨-, hparent, hnot⟩ := hopen
  cases w with
  | nil =>
      rw [← hsame, List.append_nil] at hnot
      exact hnot hdir
  | cons name v =>
      rcases List.eq_nil_or_concat' v with rfl | ⟨v, last, rfl⟩
      · exact haway name hsame.symm
      · -- its parent would be the subdirectory, or lie in it
        have hbelow : newZipFile.dropLast = p ++ [name] ++ v := by
          rw [← hsame, ← List.cons_append, ← List.append_assoc, List.dropLast_concat,
            List.append_assoc]
          rfl
        rw [hbelow] at hparent
        by_cases hv : v = []
        · rw [hv, List.append_nil] at hparent
          exact hflat name hparent
        · exact hflat name (prefix_dir hv (by rw [hparent]; exact Option.some_ne_none _))

/-- Making the archive leaves every directory as it was. -/
theorem lookup_put_dir {q : JPath} (hopen : files.Open newZipFile)
    (hdir : files.lookup q = some .dir) (content : List UInt8) :
    (files.put newZipFile (.file content)).lookup q = some .dir := by
  have hne : q ≠ newZipFile := by
    intro hsame
    exact hopen.2.2 (hsame ▸ hdir)
  rw [lookup_put hopen, if_neg hne, hdir]

/-- A run that returns has made the archive, gone through the listing and closed it. -/
theorem zipDir_ok {reads : Nat} {out : ZipOutputStream} (hdir : files.lookup p = some .dir)
    (hrun : zipDir format newZipFile files order reads p opened = .ok () out) :
    files.Open newZipFile ∧ ∃ middle,
      (order.list (files.put newZipFile (.file [])) p).forM
        (zipEntry format newZipFile (files.put newZipFile (.file [])) reads p) opened =
          .ok () middle ∧
      stream close middle = .ok () out := by
  unfold zipDir at hrun
  by_cases hopen : files.Open newZipFile
  · rw [if_pos hopen] at hrun
    simp only [if_pos (lookup_put_dir hopen hdir [])] at hrun
    obtain ⟨_, middle, hloop, hclose⟩ := run_bind_ok.mp hrun
    exact ⟨hopen, middle, hloop, hclose⟩
  · rw [if_neg hopen] at hrun
    cases hrun

/-- An archive in the directory would be read before it is complete. -/
theorem elsewhere_of_archivesTree (hdir : files.lookup p = some .dir)
    (h : ArchivesTree format newZipFile files order p) (name : JString) :
    newZipFile ≠ p ++ [name] := by
  intro hself
  obtain ⟨reads, out, hrun, -, hnodup, ws, -, hws, hentries⟩ := h
  obtain ⟨hopen, middle, hloop, hclose⟩ := zipDir_ok hdir hrun
  obtain ⟨hclosed, -, -, hlisted⟩ := zipEntries_ok hloop
  have hmem : name ∈ order.list (files.put newZipFile (.file [])) p := by
    rw [order.mem_list, lookup_put hopen, if_pos hself.symm]
    exact Option.some_ne_none _
  -- the entry of the archive has no more bytes than there were before it was closed
  obtain ⟨data, hentry, hlength⟩ := (hlisted name hmem).2 hself.symm
  have hgrows := format.length_close _ _ (run_stream_ok.mp hclose) hclosed
  rw [run_stream_ok, run_close_written] at hclose
  obtain rfl := (EStateM.Result.ok.inj hclose).2
  have hfile := writes_put hopen (format.bytes { middle with
    entries := written middle, current := none, closed := true }) (p ++ [name])
  rw [if_pos hself.symm] at hfile
  obtain ⟨e, he, hname, hdata⟩ := exists_of_forall₂ hentries ((hws [name]).mpr ⟨_, hfile⟩)
  rw [entryName_singleton] at hname
  have hsame := List.inj_on_of_nodup_map hnodup hentry he hname.symm
  rw [hfile] at hdata
  have hbytes := congrArg List.length (Entry.file.inj (Option.some.inj hdata))
  rw [← hsame] at hbytes
  change _ = data.length at hbytes
  omega

/-- A subdirectory would have been opened as a file. -/
theorem flat_of_archivesTree (hdir : files.lookup p = some .dir)
    (h : ArchivesTree format newZipFile files order p) (name : JString) :
    files.lookup (p ++ [name]) ≠ some .dir := by
  intro hsub
  obtain ⟨reads, out, hrun, -⟩ := h
  obtain ⟨hopen, middle, hloop, -⟩ := zipDir_ok hdir hrun
  obtain ⟨-, -, -, hlisted⟩ := zipEntries_ok hloop
  have hne : p ++ [name] ≠ newZipFile := by
    intro hsame
    exact hopen.2.2 (hsame ▸ hsub)
  have hsub' := lookup_put_dir hopen hsub []
  have hmem := order.mem_list.mpr (hsub' ▸ Option.some_ne_none _)
  exact (hlisted name hmem).1 hne hsub'

/-- A directory of files is archived, with the archive elsewhere. -/
theorem archivesTree_of_flat (hdir : files.lookup p = some .dir) (hopen : files.Open newZipFile)
    (haway : ∀ name, newZipFile ≠ p ++ [name])
    (hflat : ∀ name, files.lookup (p ++ [name]) ≠ some .dir) :
    ArchivesTree format newZipFile files order p := by
  have hsame := lookup_put_elsewhere hdir hflat hopen haway
  have hdir' := lookup_put_dir hopen hdir []
  have hflat' : ∀ name, (files.put newZipFile (.file [])).lookup (p ++ [name]) ≠ some .dir :=
    fun name => by rw [hsame]; exact hflat name
  have hlisted : ∀ name ∈ order.list (files.put newZipFile (.file [])) p, ∃ content,
      (files.put newZipFile (.file [])).lookup (p ++ [name]) = some (.file content) :=
    files_of_flat hflat'
  obtain ⟨reads, hreads⟩ := exists_reads _ hlisted
  obtain ⟨out, hrun, hclosed, hholds⟩ : ∃ out,
      zipDir format newZipFile files order reads p opened = .ok () out ∧ out.closed = true ∧
        List.Forall₂ (Holds (files.put newZipFile (.file [])) p)
          (order.list (files.put newZipFile (.file [])) p) out.entries :=
    run_zipDir hopen hdir' fun name hname => ⟨fun heq => haway name heq.symm, hreads name hname⟩
  have hnodup := order.nodup_list (files.put newZipFile (.file [])) p
  refine ⟨reads, out, hrun, hclosed, nodup_entries hnodup hholds,
    (order.list (files.put newZipFile (.file [])) p).map fun name => [name],
    hnodup.map List.singleton_injective, fun w => ?_, ?_⟩
  · rw [mem_listed_iff hdir' hflat', hsame, hsame]
  · refine List.forall₂_map_left_iff.mpr (hholds.imp fun name e hname => ?_)
    rw [entryName_singleton, hsame, ← hsame []]
    exact hname

end Flat

/-- **A directory is archived exactly when** the new archive can be made, does not lie in it,
and it has no subdirectory. -/
theorem archivesTree_iff (order : Order) {p : JPath} (hdir : files.lookup p = some .dir) :
    ArchivesTree format newZipFile files order p ↔
      files.Open newZipFile ∧ (∀ name, newZipFile ≠ p ++ [name]) ∧
        ∀ name, files.lookup (p ++ [name]) ≠ some .dir := by
  constructor
  · intro h
    refine ⟨?_, elsewhere_of_archivesTree hdir h, flat_of_archivesTree hdir h⟩
    obtain ⟨reads, out, hrun, -⟩ := h
    exact (zipDir_ok hdir hrun).1
  · intro h
    obtain ⟨hopen, haway, hflat⟩ := h
    exact archivesTree_of_flat hdir hopen haway hflat

/-! ## Samples -/

/-- An archive that stores its entries one after the other, as they are. -/
def stored (out : ZipOutputStream) : List UInt8 :=
  (written out).flatMap (fun e => [0x50, 0x4B, 3, 4] ++ getBytes e.name ++ e.data) ++
    if out.closed then [0x50, 0x4B, 5, 6] else []

def storedFormat : ZipFormat where
  bytes := stored
  length_put name out out' hrun := by
    have hwritten : written out' = written out ++ [⟨name, []⟩] := by rw [putNextEntry_ok hrun]; rfl
    have hclosed : out'.closed = out.closed := by rw [putNextEntry_ok hrun]
    unfold stored
    rw [hwritten, hclosed, List.flatMap_append, List.length_append, List.length_append,
      List.length_append]
    omega
  length_write buf out out' hrun := by
    cases hcurrent : out.current with
    | none => simp [write, hcurrent] at hrun
    | some e =>
        rw [run_write hcurrent] at hrun
        obtain rfl := (EStateM.Result.ok.inj hrun).2
        simp [stored, written, hcurrent]
  length_close out out' hrun hopen := by
    rw [run_close_written] at hrun
    obtain rfl := (EStateM.Result.ok.inj hrun).2
    simp [stored, written, hopen]

/-- A directory `a` with a file in it. -/
def flatDirectory : Tree :=
  (FileSystem.empty.mkdirs [js "a"]).put [js "a", js "one"] (.file [1, 2, 3])

theorem flatDirectory_flat (name : JString) :
    flatDirectory.lookup ([js "a"] ++ [name]) ≠ some .dir := by
  have hopen : ((FileSystem.empty : Tree).mkdirs [js "a"]).Open [js "a", js "one"] := by decide
  intro hsub
  unfold flatDirectory at hsub
  rw [lookup_put hopen] at hsub
  split at hsub
  · cases hsub
  · have hnone : (FileSystem.empty : Tree).lookup ([js "a"] ++ [name]) = none := rfl
    have hlength := (mkdirs_new hnone hsub).2.length_le
    simp at hlength

/-- An archive beside a directory of files. -/
theorem archivesTree_iff_flat : ArchivesTree storedFormat [js "z"] flatDirectory .kept [js "a"] :=
  (archivesTree_iff storedFormat [js "z"] flatDirectory .kept (by decide)).mpr
    ⟨by decide, by simp, flatDirectory_flat⟩

/-- A directory `a` with an empty directory in it. -/
def nestedDirectory : Tree := FileSystem.empty.mkdirs [js "a", js "b"]

/-- The run ends at the empty directory. -/
theorem not_archivesTree_nested :
    ¬ ArchivesTree storedFormat [js "z"] nestedDirectory .kept [js "a"] := by
  intro h
  obtain ⟨reads, out, hrun, -⟩ := h
  have herror : ∃ out, zipDir storedFormat [js "z"] nestedDirectory .kept reads [js "a"] opened =
      .error (.fileNotFound [js "a", js "b"]) out := ⟨_, rfl⟩
  obtain ⟨out', herror⟩ := herror
  rw [hrun] at herror
  cases herror

end TrashClear.ZipUtil
