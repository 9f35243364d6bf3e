import TrashClear.Java.Files
import TrashClear.Library.Watch

/-!
# Processes over files

A process is a program over files and a database whose single operations are watched: it
can be stopped behind any of them.  `op x` is an operation on files.

The rules say what an operation does to the files, whatever the faults are:
`safe_fileExists`, `safe_delete`, `safe_openInput`, `safe_openOutput`, `safe_transfer`.
Without faults, `safe_op_clear` takes an equation of the operation.
-/

namespace Java

open Disk Run Files Watch

/-- Why a process ends early. -/
inductive Failure
  | files (stop : Stop)
  | sql (e : Throwable)
  deriving Repr

abbrev Process := EStateM Failure (Watched Machine)

/-- One operation on files. -/
def op {α : Type} (x : Files α) : Process α := step Failure.files x

/-- A property of the files of a machine. -/
def On (P : Tree → Prop) (m : Machine) : Prop := P m.files

namespace Process

section Rules

variable {α : Type} {P D : Tree → Prop} {p : JPath} {thrown : Machine → Prop}

theorem safe_fileExists (hduring : ∀ t, P t → D t) :
    Safe (On D) (On P) (op (fileExists p))
      (fun found => On fun t => P t ∧ found = (t.lookup p).isSome) thrown := by
  apply safe_step
  intro m hm
  rw [run_fileExists]
  exact ⟨hduring _ hm, hm, rfl⟩

theorem safe_fault (hduring : ∀ t, P t → D t) :
    Safe (On D) (On P) (op fault) (fun _ => On P) thrown := by
  apply safe_step
  intro m hm
  obtain ⟨item, faults, hfault⟩ := run_fault m
  rw [hfault]
  exact ⟨hduring _ hm, hm⟩

/-- A stream that is opened gives the content of a file. -/
theorem safe_openInput (hduring : ∀ t, P t → D t) :
    Safe (On D) (On P) (op (openInput p))
      (fun content => On fun t => P t ∧ t.lookup p = some (.file content)) (On P) := by
  apply safe_step
  intro m hm
  obtain ⟨faults, hthrow | ⟨content, hcontent, hread⟩⟩ := openInput_cases p m
  · rw [hthrow]
    exact ⟨hduring _ hm, hm⟩
  · rw [hread]
    exact ⟨hduring _ hm, hm, hcontent⟩

/-- A file that is opened for writing is empty. -/
theorem safe_openOutput {R : Tree → Prop} (hduring : ∀ t, P t → D t)
    (h : ∀ t, P t → t.Open p → D (t.put p (.file [])) ∧ R (t.put p (.file []))) :
    Safe (On D) (On P) (op (openOutput p)) (fun _ => On R) (On P) := by
  apply safe_step
  intro m hm
  obtain ⟨faults, hthrow | ⟨hopen, hnew⟩⟩ := openOutput_cases p m
  · rw [hthrow]
    exact ⟨hduring _ hm, hm⟩
  · rw [hnew]
    exact h m.files hm hopen

/-- `target` holds the beginning of `all`, and nothing else has changed. -/
def Begun (files : Tree) (target : JPath) (all : List UInt8) (t : Tree) : Prop :=
  ∃ c, c <+: all ∧ files.Writes target c t

/-- One operation of a transfer of `all`. -/
theorem safe_transfer {files : Tree} {source target : JPath} {accepted all : List UInt8}
    (hopen : files.Open target) (hbegins : accepted <+: all) :
    Safe (On (Begun files target all)) (On (Begun files target all))
      (op (transfer source target accepted)) (fun _ => On (files.Writes target accepted))
      (On (Begun files target all)) := by
  apply safe_step
  intro m hm
  obtain ⟨c, -, hwrites⟩ := hm
  obtain ⟨item, faults, hfault⟩ := run_fault m
  rw [transfer, run_bind_of_ok hfault]
  cases item with
  | none =>
      have hdone := hwrites.put hopen accepted
      exact ⟨⟨accepted, hbegins, hdone⟩, hdone⟩
  | some n =>
      have hpart : Begun files target all (m.files.put target (.file (accepted.take n))) :=
        ⟨_, (List.take_prefix n accepted).trans hbegins, hwrites.put hopen _⟩
      exact ⟨hpart, hpart⟩

theorem Begun.of_writes {files t : Tree} {target : JPath} {c all : List UInt8} (h : c <+: all)
    (hwrites : files.Writes target c t) : Begun files target all t :=
  ⟨c, h, hwrites⟩

/-- Operations that only go on with a transfer. -/
theorem safe_transfer_then {β : Type} {files : Tree} {source target : JPath}
    {accepted all : List UInt8} (hopen : files.Open target) (hbegins : accepted <+: all)
    {f : Unit → Process β} {post : β → Machine → Prop}
    (hf : Safe (On (Begun files target all)) (On (Begun files target all)) (f ()) post
      (On (Begun files target all))) :
    Safe (On (Begun files target all)) (On (Begun files target all))
      (op (transfer source target accepted) >>= f) post (On (Begun files target all)) :=
  (safe_transfer hopen hbegins).bind fun _ =>
    hf.weaken (fun _ h => .of_writes hbegins h) (fun _ h => h) (fun _ _ h => h) (fun _ h => h)

end Rules

/-! ## Without faults -/

/-- No operation is going to fail. -/
def Clear (P : Tree → Prop) (m : Machine) : Prop := m.faults = [] ∧ P m.files

section Clear

variable {α : Type} {P : Tree → Prop}

/-- A premise that does not depend on the files. -/
theorem safe_of_clear {Q : Prop} {during thrown : Machine → Prop} {post : α → Machine → Prop}
    {x : Process α} (h : Q → Safe during (Clear P) x post thrown) :
    Safe during (Clear fun t => Q ∧ P t) x post thrown :=
  fun w hw => h hw.2.1 w ⟨hw.1, hw.2.2⟩

/-- One operation, from its equation. -/
theorem safe_op_clear {x : Files α} {Q : α → Tree → Prop}
    (h : ∀ t, P t → ∃ a t', x ⟨t, []⟩ = .ok a ⟨t', []⟩ ∧ Q a t') :
    Safe (fun _ => True) (Clear P) (op x) (fun a => Clear (Q a)) (fun _ => False) := by
  apply safe_step
  intro m hm
  obtain ⟨files, faults⟩ := m
  obtain ⟨hfaults, hfiles⟩ := hm
  obtain ⟨a, t', hrun, hpost⟩ := h files hfiles
  rw [show faults = [] from hfaults, hrun]
  exact ⟨trivial, rfl, hpost⟩

/-- One operation of a transfer. -/
theorem safe_transfer_clear {files : Tree} {source target : JPath} {accepted all : List UInt8}
    (hopen : files.Open target) :
    Safe (fun _ => True) (Clear (Begun files target all)) (op (transfer source target accepted))
      (fun _ => Clear (files.Writes target accepted)) (fun _ => False) := by
  refine safe_op_clear (Q := fun _ => files.Writes target accepted) fun t ht => ?_
  obtain ⟨c, -, hwrites⟩ := ht
  exact ⟨(), _, run_transfer_clear source target accepted t, hwrites.put hopen accepted⟩

/-- Operations that only go on with a transfer. -/
theorem safe_transfer_clear_then {β : Type} {files : Tree} {source target : JPath}
    {accepted all : List UInt8} (hopen : files.Open target) (hbegins : accepted <+: all)
    {f : Unit → Process β} {post : β → Machine → Prop}
    (hf : Safe (fun _ => True) (Clear (Begun files target all)) (f ()) post (fun _ => False)) :
    Safe (fun _ => True) (Clear (Begun files target all))
      (op (transfer source target accepted) >>= f) post (fun _ => False) :=
  (safe_transfer_clear hopen).bind fun _ =>
    hf.weaken (fun _ h => ⟨h.1, .of_writes hbegins h.2⟩) (fun _ h => h) (fun _ _ h => h)
      (fun _ h => h)

end Clear

/-- A triple without an exceptional end is a run that returns. -/
theorem exists_run_of_safe {α : Type} {P : Tree → Prop} {post : α → Machine → Prop}
    {x : Process α} (h : Safe (fun _ => True) (Clear P) x post (fun _ => False)) {files : Tree}
    (hfiles : P files) : ∃ a w, x (start ⟨files, []⟩) = .ok a w ∧ post a w.now := by
  have hend := h (start ⟨files, []⟩) ⟨rfl, hfiles⟩
  cases hrun : x (start ⟨files, []⟩) with
  | ok a w =>
      rw [hrun] at hend
      exact ⟨a, w, rfl, hend.1⟩
  | error e w =>
      rw [hrun] at hend
      exact absurd hend.1 not_false

end Process

end Java
