import TrashClear.Java.Text
import TrashClear.Library.Disk
import TrashClear.Library.Run

/-!
# `java.io.File` and file streams

Programs over a file system whose names are strings and whose contents are bytes.  A
stream operation may fail: `Machine.faults` says which, one item for each operation in
turn, and no operation fails after the last item.  `File.listFiles` promises no order, so
`Order` gives any.

A file that is being written holds some of the bytes that were accepted when the transfer
fails, as many as the item says.
-/

namespace Java

open Disk Run

/-- A path as its names; `p + "/" + name` is `p ++ [name]`. -/
abbrev JPath := Disk.Path JString

abbrev Tree := Disk.FileSystem JString (List UInt8)

/-- The exceptions of file streams.  A transfer fails with `written` bytes of the target
on the disk. -/
inductive IOException
  | fileNotFound (path : JPath)
  | transfer (source target : JPath) (written : Nat)
  deriving DecidableEq, Repr

/-- Why a program over files stops early: an exception, or a recursion deeper than the
given depth. -/
inductive Stop
  | io (e : IOException)
  | nullPointer
  | unfinished
  deriving DecidableEq, Repr

/-- The files, and which of the coming stream operations fail. -/
structure Machine where
  files : Tree
  faults : List (Option Nat)

/-- Programs over files. -/
abbrev Files := EStateM Stop Machine

/-- The order in which directories are listed. -/
structure Order where
  list : Tree → JPath → List JString
  perm : ∀ files p, (list files p).Perm (files.children p)

/-- The order in which the entries are kept. -/
def Order.kept : Order := ⟨FileSystem.children, fun _ _ => .refl _⟩

theorem Order.mem_list (order : Order) {files : Tree} {p : JPath} {name : JString} :
    name ∈ order.list files p ↔ files.lookup (p ++ [name]) ≠ none :=
  (order.perm files p).mem_iff.trans FileSystem.mem_children

theorem Order.nodup_list (order : Order) (files : Tree) (p : JPath) :
    (order.list files p).Nodup :=
  (order.perm files p).nodup_iff.mpr (files.nodup_children p)

namespace Files

/-! ## Files and directories -/

def fileExists (p : JPath) : Files Bool :=
  return ((← get).files.lookup p).isSome

def isFile (p : JPath) : Files Bool :=
  return ((← get).files.lookup p).any fun entry => entry != .dir

def isDirectory (p : JPath) : Files Bool :=
  return (← get).files.lookup p = some .dir

/-- The names in a directory; elsewhere `listFiles` is null, which the caller's loop
dereferences. -/
def listFiles (order : Order) (p : JPath) : Files (List JString) := do
  let m ← get
  if m.files.lookup p = some .dir then return order.list m.files p else throw .nullPointer

def mkdirs (p : JPath) : Files Unit :=
  modify fun m => { m with files := m.files.mkdirs p }

def delete (p : JPath) : Files Unit :=
  modify fun m => { m with files := m.files.delete p }

theorem run_fileExists (p : JPath) (m : Machine) :
    fileExists p m = .ok (m.files.lookup p).isSome m := rfl

theorem run_isFile (p : JPath) (m : Machine) :
    isFile p m = .ok ((m.files.lookup p).any fun entry => entry != .dir) m := rfl

theorem run_isDirectory (p : JPath) (m : Machine) :
    isDirectory p m = .ok (decide (m.files.lookup p = some .dir)) m := rfl

theorem run_mkdirs (p : JPath) (m : Machine) :
    mkdirs p m = .ok () { m with files := m.files.mkdirs p } := rfl

theorem run_listFiles {order : Order} {p : JPath} {m : Machine}
    (h : m.files.lookup p = some .dir) :
    listFiles order p m = .ok (order.list m.files p) m := by
  rw [listFiles, run_get_bind, if_pos h]
  rfl

theorem run_listFiles_null {order : Order} {p : JPath} {m : Machine}
    (h : m.files.lookup p ≠ some .dir) : listFiles order p m = .error .nullPointer m := by
  rw [listFiles, run_get_bind, if_neg h]
  rfl

/-! ## Streams -/

/-- Whether the next stream operation fails. -/
def fault : Files (Option Nat) := fun m =>
  match m.faults with
  | [] => .ok none m
  | item :: faults => .ok item { m with faults := faults }

/-- `new FileInputStream(p)`, and what there is to read. -/
def openInput (p : JPath) : Files (List UInt8) := do
  let failed ← fault
  match failed, (← get).files.lookup p with
  | none, some (.file content) => return content
  | _, _ => throw (.io (.fileNotFound p))

/-- `new FileOutputStream(p)`: the file is new or emptied. -/
def openOutput (p : JPath) : Files Unit := do
  let failed ← fault
  let m ← get
  if failed = none ∧ m.files.Open p then set { m with files := m.files.put p (.file []) }
  else throw (.io (.fileNotFound p))

/-- A stream operation of a transfer, after which `accepted` is the content of the target.
When it fails, some of that is on the disk. -/
def transfer (source target : JPath) (accepted : List UInt8) : Files Unit := do
  match ← fault with
  | none => modify fun m => { m with files := m.files.put target (.file accepted) }
  | some n => do
      modify fun m => { m with files := m.files.put target (.file (accepted.take n)) }
      throw (.io (.transfer source target (accepted.take n).length))

theorem run_openInput_clear {files : Tree} {p : JPath} {content : List UInt8}
    (h : files.lookup p = some (.file content)) :
    openInput p ⟨files, []⟩ = .ok content ⟨files, []⟩ := by
  show (match (none : Option Nat), files.lookup p with
    | none, some (.file content) => return content
    | _, _ => throw (.io (.fileNotFound p)) : Files (List UInt8)) ⟨files, []⟩ = _
  rw [h]
  rfl

theorem run_openOutput_clear {files : Tree} {p : JPath} (h : files.Open p) :
    openOutput p ⟨files, []⟩ = .ok () ⟨files.put p (.file []), []⟩ := by
  show (if none = none ∧ files.Open p then _ else _ : Files Unit) ⟨files, []⟩ = _
  rw [if_pos ⟨rfl, h⟩]
  rfl

theorem run_transfer_clear (source target : JPath) (accepted : List UInt8) (files : Tree) :
    transfer source target accepted ⟨files, []⟩ =
      .ok () ⟨files.put target (.file accepted), []⟩ := rfl

theorem run_fault (m : Machine) :
    ∃ item faults, fault m = .ok item { m with faults := faults } := by
  obtain ⟨files, faults⟩ := m
  cases faults with
  | nil => exact ⟨none, [], rfl⟩
  | cons item faults => exact ⟨item, faults, rfl⟩

/-- A new input stream throws, or gives the content of a file. -/
theorem openInput_cases (p : JPath) (m : Machine) :
    ∃ faults, openInput p m = .error (.io (.fileNotFound p)) { m with faults := faults } ∨
      ∃ content, m.files.lookup p = some (.file content) ∧
        openInput p m = .ok content { m with faults := faults } := by
  obtain ⟨item, faults, hfault⟩ := run_fault m
  refine ⟨faults, ?_⟩
  rw [openInput, run_bind_of_ok hfault, run_get_bind]
  rcases item with _ | n
  · rcases hentry : m.files.lookup p with _ | content | _
    · exact Or.inl rfl
    · exact Or.inr ⟨content, rfl, rfl⟩
    · exact Or.inl rfl
  · exact Or.inl rfl

/-- A new output stream throws and leaves the files alone, or makes an empty file. -/
theorem openOutput_cases (p : JPath) (m : Machine) :
    ∃ faults, openOutput p m = .error (.io (.fileNotFound p)) { m with faults := faults } ∨
      m.files.Open p ∧ openOutput p m =
        .ok () { m with files := m.files.put p (.file []), faults := faults } := by
  obtain ⟨item, faults, hfault⟩ := run_fault m
  refine ⟨faults, ?_⟩
  rw [openOutput, run_bind_of_ok hfault, run_get_bind]
  by_cases h : item = none ∧ m.files.Open p
  · rw [if_pos h]
    exact Or.inr ⟨h.2, rfl⟩
  · rw [if_neg h]
    exact Or.inl rfl

/-- How the transfer of `content` goes on after its file was opened in `files`: the target
holds `accepted`, or the transfer failed with a part of `content` on the disk. -/
inductive Transfers (files : Tree) (source target : JPath) (content accepted : List UInt8) :
    EStateM.Result Stop Machine Unit → Prop
  | done (m : Machine) : files.Writes target accepted m.files →
      Transfers files source target content accepted (.ok () m)
  | failed (n : Nat) (m : Machine) : n ≤ content.length →
      files.Writes target (content.take n) m.files →
      Transfers files source target content accepted (.error (.io (.transfer source target n)) m)

section Transfers

variable {files : Tree} {source target : JPath} {content accepted accepted' : List UInt8}

/-- Operations in a row. -/
theorem Transfers.bind {x : Files Unit} {f : Unit → Files Unit} {m : Machine}
    (hx : Transfers files source target content accepted (x m))
    (hf : ∀ m', files.Writes target accepted m'.files →
      Transfers files source target content accepted' (f () m')) :
    Transfers files source target content accepted' ((x >>= f) m) := by
  cases hrun : x m with
  | ok a m' =>
      rw [hrun] at hx
      rw [run_bind_of_ok hrun]
      cases hx with
      | done _ hwrites => exact hf m' hwrites
  | error e m' =>
      rw [hrun] at hx
      rw [run_bind_of_error hrun]
      cases hx with
      | failed n _ hn hwrites => exact .failed n m' hn hwrites

/-- One operation, while the target holds anything. -/
theorem transfers_transfer (hopen : files.Open target) (hbegins : accepted <+: content)
    {m : Machine} {before : List UInt8} (hm : files.Writes target before m.files) :
    Transfers files source target content accepted (transfer source target accepted m) := by
  obtain ⟨item, faults, hfault⟩ := run_fault m
  rw [transfer, run_bind_of_ok hfault]
  cases item with
  | none => exact .done _ (hm.put hopen accepted)
  | some n =>
      have htake : content.take (accepted.take n).length = accepted.take n :=
        (List.prefix_iff_eq_take.mp ((List.take_prefix n accepted).trans hbegins)).symm
      have hle : (accepted.take n).length ≤ content.length :=
        ((List.take_prefix n accepted).trans hbegins).length_le
      refine .failed _ _ hle ?_
      rw [htake]
      exact hm.put hopen (accepted.take n)

end Transfers

/-! ## Programs that only a stream can stop -/

/-- The program returns, with `post`, unless a stream operation fails. -/
def Returns {α : Type} (x : Files α) (m : Machine) (post : α → Tree → Prop) : Prop :=
  match x m with
  | .ok a m' => post a m'.files ∧ (m.faults = [] → m'.faults = [])
  | .error _ _ => m.faults ≠ []

section Returns

variable {α β : Type} {x : Files α} {m : Machine} {post : α → Tree → Prop}

theorem Returns.post_of_ok {a : α} {m' : Machine} (h : Returns x m post) (hrun : x m = .ok a m') :
    post a m'.files := by
  unfold Returns at h
  rw [hrun] at h
  exact h.1

/-- Without faults it returns. -/
theorem Returns.exists_ok (h : Returns x m post) (hfaults : m.faults = []) :
    ∃ a m', x m = .ok a m' ∧ post a m'.files := by
  unfold Returns at h
  cases hrun : x m with
  | ok a m' =>
      rw [hrun] at h
      exact ⟨a, m', rfl, h.1⟩
  | error e m' =>
      rw [hrun] at h
      exact absurd hfaults h

theorem returns_pure {a : α} (h : post a m.files) : Returns (pure a) m post :=
  ⟨h, id⟩

/-- Programs in a row. -/
theorem Returns.bind {f : α → Files β} {post' : β → Tree → Prop} (hx : Returns x m post)
    (hf : ∀ a m', post a m'.files → Returns (f a) m' post') : Returns (x >>= f) m post' := by
  unfold Returns at hx ⊢
  cases hrun : x m with
  | error e m' =>
      rw [hrun] at hx
      rw [run_bind_of_error hrun]
      exact hx
  | ok a m' =>
      rw [hrun] at hx
      obtain ⟨hpost, hclear⟩ := hx
      have hrest := hf a m' hpost
      rw [run_bind_of_ok hrun]
      unfold Returns at hrest
      cases hnext : f a m' with
      | error e m'' =>
          rw [hnext] at hrest
          exact fun hfaults => hrest (hclear hfaults)
      | ok b m'' =>
          rw [hnext] at hrest
          exact ⟨hrest.1, fun hfaults => hrest.2 (hclear hfaults)⟩

/-- Without faults the next operation succeeds. -/
theorem fault_clear {item : Option Nat} {m' : Machine} (hrun : fault m = .ok item m')
    (hfaults : m.faults = []) : item = none ∧ m'.faults = [] := by
  unfold fault at hrun
  rw [hfaults] at hrun
  cases hrun
  exact ⟨rfl, hfaults⟩

theorem returns_openInput {p : JPath} {content : List UInt8}
    (h : m.files.lookup p = some (.file content)) :
    Returns (openInput p) m fun read files' => read = content ∧ files' = m.files := by
  obtain ⟨item, faults, hfault⟩ := run_fault m
  have hclear := fault_clear hfault
  unfold Returns
  rw [openInput, run_bind_of_ok hfault, run_get_bind]
  simp only [h]
  rcases item with _ | n
  · exact ⟨⟨rfl, rfl⟩, fun hfaults => (hclear hfaults).2⟩
  · intro hfaults
    cases (hclear hfaults).1

theorem returns_openOutput {p : JPath} (hopen : m.files.Open p) :
    Returns (openOutput p) m fun _ files' => files' = m.files.put p (.file []) := by
  obtain ⟨item, faults, hfault⟩ := run_fault m
  have hclear := fault_clear hfault
  unfold Returns
  rw [openOutput, run_bind_of_ok hfault, run_get_bind]
  rcases item with _ | n
  · rw [if_pos ⟨rfl, hopen⟩]
    exact ⟨rfl, fun hfaults => (hclear hfaults).2⟩
  · rw [if_neg fun h => Option.some_ne_none n h.1]
    intro hfaults
    cases (hclear hfaults).1

/-- One operation of a transfer, while the target holds anything. -/
theorem returns_transfer {files : Tree} {source target : JPath} {accepted before : List UInt8}
    (hopen : files.Open target) (hm : files.Writes target before m.files) :
    Returns (transfer source target accepted) m
      fun _ files' => files.Writes target accepted files' := by
  obtain ⟨item, faults, hfault⟩ := run_fault m
  have hclear := fault_clear hfault
  unfold Returns
  rw [transfer, run_bind_of_ok hfault]
  rcases item with _ | n
  · exact ⟨hm.put hopen accepted, fun hfaults => (hclear hfaults).2⟩
  · intro hfaults
    cases (hclear hfaults).1

end Returns

end Files

end Java
