import Mathlib.Data.List.AList
import Mathlib.Data.List.Infix

/-!
# Files and directories

A file system as a finite map from paths, which are lists of names, to files and
directories.  The root is a directory, and so is what holds any other entry: `FileSystem`
carries this, so that no operation can leave an entry without its parent.

An operation is described by what `lookup` says afterwards (`lookup_put`,
`lookup_delete`, `lookup_mkdirs`).  `Extends` is the order of file systems in
which entries are only added.
-/

namespace Disk

/-- A path from the root. -/
abbrev Path (α : Type) := List α

inductive Entry (β : Type)
  | file (content : β)
  | dir
  deriving DecidableEq, Repr

instance {β : Type} : (entry : Option (Entry β)) → Decidable (entry = some .dir)
  | none => isFalse (by simp)
  | some (.file _) => isFalse (by simp)
  | some .dir => isTrue rfl

variable {α β : Type} [DecidableEq α]

/-- The entry at a path; the root is a directory. -/
def find (entries : AList fun _ : Path α => Entry β) (p : Path α) : Option (Entry β) :=
  if p = [] then some .dir else entries.lookup p

/-- Finitely many entries, each but the root in a directory. -/
structure FileSystem (α β : Type) [DecidableEq α] where
  entries : AList fun _ : Path α => Entry β
  closed : ∀ p x, find entries (p ++ [x]) ≠ none → find entries p = some .dir

namespace FileSystem

def lookup (fs : FileSystem α β) (p : Path α) : Option (Entry β) := find fs.entries p

/-- Nothing but the root. -/
def empty : FileSystem α β where
  entries := ∅
  closed := fun p x h => by simp [find] at h

@[simp] theorem lookup_nil (fs : FileSystem α β) : fs.lookup [] = some .dir := by
  simp [lookup, find]

theorem parent_dir {fs : FileSystem α β} {p : Path α} {x : α} (h : fs.lookup (p ++ [x]) ≠ none) :
    fs.lookup p = some .dir :=
  fs.closed p x h

/-- What holds an entry, directly or not, is a directory. -/
theorem prefix_dir {fs : FileSystem α β} {p w : Path α} (hw : w ≠ [])
    (h : fs.lookup (p ++ w) ≠ none) : fs.lookup p = some .dir := by
  induction w using List.reverseRecOn with
  | nil => exact absurd rfl hw
  | append_singleton w x ih =>
      rw [← List.append_assoc] at h
      have hparent := parent_dir h
      by_cases hnil : w = []
      · rwa [hnil, List.append_nil] at hparent
      · apply ih hnil
        rw [hparent]
        exact Option.some_ne_none _

/-- Below a directory everything is in one of its entries. -/
theorem first_ne_none {fs : FileSystem α β} {p w : Path α} {x : α}
    (h : fs.lookup (p ++ x :: w) ≠ none) : fs.lookup (p ++ [x]) ≠ none := by
  by_cases hw : w = []
  · rwa [hw] at h
  · rw [← List.singleton_append, ← List.append_assoc] at h
    rw [prefix_dir hw h]
    exact Option.some_ne_none _

/-- There is nothing below a file. -/
theorem lookup_below_file {fs : FileSystem α β} {p w : Path α} {c : β}
    (h : fs.lookup p = some (.file c)) (hw : w ≠ []) : fs.lookup (p ++ w) = none := by
  by_contra hsome
  have hdir := prefix_dir hw hsome
  rw [h] at hdir
  cases hdir

/-- A file has an entry of its own. -/
theorem mem_keys_of_file {fs : FileSystem α β} {p : Path α} {c : β}
    (h : fs.lookup p = some (.file c)) : p ∈ fs.entries.keys := by
  unfold lookup find at h
  split at h
  · cases h
  · exact AList.mem_keys.mp (AList.lookup_isSome.mp (Option.isSome_iff_exists.mpr ⟨_, h⟩))

/-! ## Listing a directory -/

/-- The names in a directory. -/
def children (fs : FileSystem α β) (p : Path α) : List α :=
  fs.entries.keys.filterMap fun q => if q.dropLast = p then q.getLast? else none

theorem dropLast_eq_and_getLast? {p q : Path α} {x : α} :
    (if q.dropLast = p then q.getLast? else none) = some x ↔ q = p ++ [x] := by
  constructor
  · intro h
    by_cases hp : q.dropLast = p
    · rw [if_pos hp, List.getLast?_eq_some_iff] at h
      obtain ⟨r, rfl⟩ := h
      rw [← hp, List.dropLast_concat]
    · rw [if_neg hp] at h
      cases h
  · intro h
    rw [h]
    simp

theorem mem_children {fs : FileSystem α β} {p : Path α} {x : α} :
    x ∈ fs.children p ↔ fs.lookup (p ++ [x]) ≠ none := by
  have hne : p ++ [x] ≠ [] := by simp
  unfold children lookup find
  rw [if_neg hne, Ne, AList.lookup_eq_none, Classical.not_not, AList.mem_keys, List.mem_filterMap]
  constructor
  · intro h
    obtain ⟨q, hq, hx⟩ := h
    rwa [dropLast_eq_and_getLast?.mp hx] at hq
  · intro h
    exact ⟨p ++ [x], h, dropLast_eq_and_getLast?.mpr rfl⟩

theorem nodup_children (fs : FileSystem α β) (p : Path α) : (fs.children p).Nodup := by
  refine List.Nodup.filterMap (fun q q' x hq hq' => ?_) fs.entries.keys_nodup
  rw [dropLast_eq_and_getLast?.mp hq, dropLast_eq_and_getLast?.mp hq']

/-- Only a directory has names in it. -/
theorem children_eq_nil {fs : FileSystem α β} {p : Path α} (h : fs.lookup p ≠ some .dir) :
    fs.children p = [] := by
  by_contra hsome
  obtain ⟨x, hx⟩ := List.exists_mem_of_ne_nil _ hsome
  exact h (parent_dir (mem_children.mp hx))

/-- Nothing is below a directory without names. -/
theorem lookup_below_of_children_nil {fs : FileSystem α β} {p w : Path α}
    (h : fs.children p = []) (hw : w ≠ []) : fs.lookup (p ++ w) = none := by
  cases w with
  | nil => exact absurd rfl hw
  | cons x w =>
      by_contra hsome
      have hmem := mem_children.mpr (first_ne_none hsome)
      rw [h] at hmem
      cases hmem

/-! ## Changing one entry -/

/-- An entry can be put where its parent is a directory and it is none itself. -/
def Open (fs : FileSystem α β) (p : Path α) : Prop :=
  p ≠ [] ∧ fs.lookup p.dropLast = some .dir ∧ fs.lookup p ≠ some .dir

instance (fs : FileSystem α β) (p : Path α) : Decidable (fs.Open p) :=
  inferInstanceAs (Decidable (_ ∧ _))

theorem find_insert {entries : AList fun _ : Path α => Entry β} {p q : Path α} (e : Entry β)
    (hp : p ≠ []) : find (entries.insert p e) q = if q = p then some e else find entries q := by
  unfold find
  by_cases hq : q = []
  · rw [if_pos hq, if_pos hq, if_neg (fun h => hp (h.symm.trans hq))]
  · rw [if_neg hq, if_neg hq]
    by_cases hpq : q = p
    · rw [if_pos hpq, hpq, AList.lookup_insert]
    · rw [if_neg hpq, AList.lookup_insert_ne hpq]

/-- A new entry, or a new content of a file. -/
def put (fs : FileSystem α β) (p : Path α) (e : Entry β) : FileSystem α β :=
  if h : fs.Open p then
    { entries := fs.entries.insert p e
      closed := by
        obtain ⟨hp, hparent, hdir⟩ := h
        intro q x hsome
        rw [find_insert e hp] at hsome ⊢
        by_cases hx : q ++ [x] = p
        · have hq : q = p.dropLast := by rw [← hx, List.dropLast_concat]
          have hne : q ≠ p := by
            intro heq
            rw [heq] at hx
            simp at hx
          rw [if_neg hne, hq]
          exact hparent
        · rw [if_neg hx] at hsome
          have hq := fs.closed q x hsome
          have hne : q ≠ p := fun heq => hdir (heq ▸ hq)
          rw [if_neg hne]
          exact hq }
  else fs

theorem lookup_put {fs : FileSystem α β} {p : Path α} (h : fs.Open p) (e : Entry β) (q : Path α) :
    (fs.put p e).lookup q = if q = p then some e else fs.lookup q := by
  unfold put
  rw [dif_pos h]
  exact find_insert e h.1

theorem put_of_not_open {fs : FileSystem α β} {p : Path α} (h : ¬ fs.Open p) (e : Entry β) :
    fs.put p e = fs :=
  dif_neg h

theorem lookup_put_ne {fs : FileSystem α β} {p q : Path α} (hne : q ≠ p) (e : Entry β) :
    (fs.put p e).lookup q = fs.lookup q := by
  by_cases h : fs.Open p
  · rw [lookup_put h, if_neg hne]
  · rw [put_of_not_open h]

/-- Only the file at `p` changes, to the content `c`. -/
def Writes (fs : FileSystem α β) (p : Path α) (c : β) (fs' : FileSystem α β) : Prop :=
  ∀ q, fs'.lookup q = if q = p then some (.file c) else fs.lookup q

theorem Writes.isOpen {fs fs' : FileSystem α β} {p : Path α} {c : β} (h : fs.Writes p c fs')
    (hopen : fs.Open p) : fs'.Open p := by
  obtain ⟨hp, hparent, -⟩ := hopen
  have hne : p.dropLast ≠ p := by
    intro heq
    have hlength := congrArg List.length heq
    rw [List.length_dropLast] at hlength
    have hpos := List.length_pos_of_ne_nil hp
    omega
  refine ⟨hp, ?_, ?_⟩
  · rw [h, if_neg hne, hparent]
  · rw [h, if_pos rfl]
    simp

theorem writes_put {fs : FileSystem α β} {p : Path α} (hopen : fs.Open p) (c : β) :
    fs.Writes p c (fs.put p (.file c)) :=
  lookup_put hopen _

/-- A second content replaces the first. -/
theorem Writes.put {fs fs' : FileSystem α β} {p : Path α} {c : β} (h : fs.Writes p c fs')
    (hopen : fs.Open p) (c' : β) : fs.Writes p c' (fs'.put p (.file c')) := by
  intro q
  rw [lookup_put (h.isOpen hopen)]
  by_cases hq : q = p
  · rw [if_pos hq, if_pos hq]
  · rw [if_neg hq, if_neg hq, h, if_neg hq]

/-- An entry without entries below it goes away; the root stays. -/
def delete (fs : FileSystem α β) (p : Path α) : FileSystem α β :=
  if h : p ≠ [] ∧ fs.children p = [] then
    { entries := fs.entries.erase p
      closed := by
        obtain ⟨hp, hnone⟩ := h
        intro q x hsome
        have hne : q ++ [x] ≠ [] := by simp
        unfold find at hsome
        rw [if_neg hne] at hsome
        have hx : q ++ [x] ≠ p := by
          intro heq
          rw [heq, AList.lookup_erase] at hsome
          exact hsome rfl
        rw [AList.lookup_erase_ne hx] at hsome
        have hold : fs.lookup (q ++ [x]) ≠ none := by
          unfold lookup find
          rwa [if_neg hne]
        have hq : q ≠ p := by
          intro heq
          have hmem := mem_children.mpr (heq ▸ hold)
          rw [hnone] at hmem
          cases hmem
        have hdir := parent_dir hold
        unfold lookup find at hdir
        unfold find
        rwa [AList.lookup_erase_ne hq] }
  else fs

theorem lookup_delete {fs : FileSystem α β} {p : Path α} (hp : p ≠ [])
    (hnone : fs.children p = []) (q : Path α) :
    (fs.delete p).lookup q = if q = p then none else fs.lookup q := by
  unfold delete
  rw [dif_pos ⟨hp, hnone⟩]
  unfold lookup find
  by_cases hq : q = p
  · rw [if_pos hq, hq, if_neg hp, AList.lookup_erase]
  · rw [if_neg hq, AList.lookup_erase_ne hq]

theorem lookup_delete_ne {fs : FileSystem α β} {p q : Path α} (hne : q ≠ p) :
    (fs.delete p).lookup q = fs.lookup q := by
  by_cases h : p ≠ [] ∧ fs.children p = []
  · rw [lookup_delete h.1 h.2, if_neg hne]
  · unfold delete
    rw [dif_neg h]

/-- Entries are only added. -/
def Extends (fs fs' : FileSystem α β) : Prop :=
  ∀ q e, fs.lookup q = some e → fs'.lookup q = some e

theorem Extends.refl (fs : FileSystem α β) : fs.Extends fs := fun _ _ h => h

theorem Extends.trans {fs fs' fs'' : FileSystem α β} (h : fs.Extends fs')
    (h' : fs'.Extends fs'') : fs.Extends fs'' :=
  fun q e hq => h' q e (h q e hq)

/-- What is there stays there. -/
theorem Extends.ne_none {fs fs' : FileSystem α β} (h : fs.Extends fs') {q : Path α}
    (hq : fs.lookup q ≠ none) : fs'.lookup q ≠ none := by
  obtain ⟨e, he⟩ := Option.ne_none_iff_exists'.mp hq
  rw [h q e he]
  exact Option.some_ne_none e

/-- What is there afterwards was there, unless there was nothing. -/
theorem Extends.lookup_eq {fs fs' : FileSystem α β} (h : fs.Extends fs') {q : Path α}
    {d e : Entry β} (hold : fs.lookup q = some d) (hnew : fs'.lookup q = some e) :
    fs.lookup q = some e := by
  have hsame := h q d hold
  rw [hnew] at hsame
  exact hold.trans hsame.symm

/-- A new file is added. -/
theorem Writes.extends {fs fs' : FileSystem α β} {p : Path α} {c : β} (h : fs.Writes p c fs')
    (hnone : fs.lookup p = none) : fs.Extends fs' := by
  intro q e hq
  have hne : q ≠ p := by
    intro heq
    rw [heq, hnone] at hq
    cases hq
  rw [h, if_neg hne, hq]

/-- Nothing else is new. -/
theorem Writes.eq_of_new {fs fs' : FileSystem α β} {p q : Path α} {c : β} {e : Entry β}
    (h : fs.Writes p c fs') (hnone : fs.lookup q = none) (hsome : fs'.lookup q = some e) :
    q = p ∧ e = .file c := by
  rw [h] at hsome
  by_cases hq : q = p
  · rw [if_pos hq] at hsome
    exact ⟨hq, (Option.some.inj hsome).symm⟩
  · rw [if_neg hq, hnone] at hsome
    cases hsome

theorem extends_put {fs : FileSystem α β} {p : Path α} (hnone : fs.lookup p = none)
    (e : Entry β) : fs.Extends (fs.put p e) := by
  intro q d hq
  by_cases hopen : fs.Open p
  · have hne : q ≠ p := by
      intro heq
      rw [heq, hnone] at hq
      cases hq
    rw [lookup_put hopen, if_neg hne, hq]
  · rwa [put_of_not_open hopen]

/-- A directory is made where there is nothing yet, in a directory. -/
def mkdir (fs : FileSystem α β) (p : Path α) : FileSystem α β :=
  if fs.lookup p = none then fs.put p .dir else fs

/-- The missing directories on the way to a path, and one at the path. -/
def mkdirs (fs : FileSystem α β) (p : Path α) : FileSystem α β :=
  p.inits.foldl mkdir fs

theorem extends_mkdir (fs : FileSystem α β) (p : Path α) : fs.Extends (fs.mkdir p) := by
  unfold mkdir
  by_cases h : fs.lookup p = none
  · rw [if_pos h]
    exact extends_put h _
  · rw [if_neg h]
    exact Extends.refl fs

/-- What a directory adds is a directory. -/
theorem mkdir_new {fs : FileSystem α β} {p q : Path α} {e : Entry β} (hnone : fs.lookup q = none)
    (hsome : (fs.mkdir p).lookup q = some e) : e = .dir ∧ q = p := by
  unfold mkdir at hsome
  by_cases h : fs.lookup p = none
  · rw [if_pos h] at hsome
    by_cases hopen : fs.Open p
    · rw [lookup_put hopen] at hsome
      by_cases hq : q = p
      · rw [if_pos hq] at hsome
        exact ⟨(Option.some.inj hsome).symm, hq⟩
      · rw [if_neg hq, hnone] at hsome
        cases hsome
    · rw [put_of_not_open hopen, hnone] at hsome
      cases hsome
  · rw [if_neg h, hnone] at hsome
    cases hsome

/-- A directory is made in a directory, unless there is a file. -/
theorem lookup_mkdir_self {fs : FileSystem α β} {p : Path α} {x : α}
    (hparent : fs.lookup p = some .dir) (hfile : ∀ c, fs.lookup (p ++ [x]) ≠ some (.file c)) :
    (fs.mkdir (p ++ [x])).lookup (p ++ [x]) = some .dir := by
  unfold mkdir
  by_cases h : fs.lookup (p ++ [x]) = none
  · have hopen : fs.Open (p ++ [x]) := by
      refine ⟨by simp, ?_, ?_⟩
      · rwa [List.dropLast_concat]
      · rw [h]
        exact Option.some_ne_none _ ∘ Eq.symm
    rw [if_pos h, lookup_put hopen, if_pos rfl]
  · rw [if_neg h]
    rcases hentry : fs.lookup (p ++ [x]) with _ | c | _
    · exact absurd hentry h
    · exact absurd hentry (hfile c)
    · rfl

theorem mkdirs_concat (fs : FileSystem α β) (p : Path α) (x : α) :
    fs.mkdirs (p ++ [x]) = (fs.mkdirs p).mkdir (p ++ [x]) := by
  unfold mkdirs
  rw [List.inits_append, List.foldl_append]
  rfl

theorem mkdirs_nil (fs : FileSystem α β) : fs.mkdirs [] = fs := by
  show fs.mkdir [] = fs
  unfold mkdir
  rw [if_neg]
  rw [lookup_nil]
  exact Option.some_ne_none _

theorem extends_mkdirs (fs : FileSystem α β) (p : Path α) : fs.Extends (fs.mkdirs p) := by
  induction p using List.reverseRecOn with
  | nil =>
      rw [mkdirs_nil]
      exact Extends.refl fs
  | append_singleton p x ih =>
      rw [mkdirs_concat]
      exact ih.trans (extends_mkdir _ _)

/-- What `mkdirs` adds are directories on the way to the path. -/
theorem mkdirs_new {fs : FileSystem α β} {p q : Path α} {e : Entry β} (hnone : fs.lookup q = none)
    (hsome : (fs.mkdirs p).lookup q = some e) : e = .dir ∧ q <+: p := by
  induction p using List.reverseRecOn with
  | nil =>
      rw [mkdirs_nil, hnone] at hsome
      cases hsome
  | append_singleton p x ih =>
      rw [mkdirs_concat] at hsome
      cases hbefore : (fs.mkdirs p).lookup q with
      | none =>
          obtain ⟨he, hq⟩ := mkdir_new hbefore hsome
          exact ⟨he, hq ▸ List.prefix_rfl⟩
      | some d =>
          have hsame := extends_mkdir _ (p ++ [x]) q d hbefore
          rw [hsame] at hsome
          obtain ⟨he, hq⟩ := ih (hbefore.trans hsome)
          exact ⟨he, hq.trans (List.prefix_append p [x])⟩

/-- Every file was there before `mkdirs`. -/
theorem file_of_mkdirs {fs : FileSystem α β} {p q : Path α} {c : β}
    (hfile : (fs.mkdirs p).lookup q = some (.file c)) : fs.lookup q = some (.file c) := by
  cases hold : fs.lookup q with
  | none =>
      have hdir := (mkdirs_new hold hfile).1
      cases hdir
  | some e =>
      have hsame := extends_mkdirs fs p _ e hold
      rw [← hsame, hfile]

/-- Without a file on the way, `mkdirs` makes the directory. -/
theorem lookup_mkdirs {fs : FileSystem α β} {p : Path α}
    (hfile : ∀ q c, q <+: p → fs.lookup q ≠ some (.file c)) :
    (fs.mkdirs p).lookup p = some .dir := by
  induction p using List.reverseRecOn with
  | nil =>
      rw [mkdirs_nil, lookup_nil]
  | append_singleton p x ih =>
      rw [mkdirs_concat]
      apply lookup_mkdir_self
      · exact ih fun q c hq => hfile q c (hq.trans (List.prefix_append p [x]))
      · exact fun c hc => hfile _ c List.prefix_rfl (file_of_mkdirs hc)

/-! ## The height of a file system -/

/-- The length of the longest path. -/
def height (fs : FileSystem α β) : Nat :=
  (fs.entries.keys.map List.length).foldr max 0

theorem length_le_height {fs : FileSystem α β} {p : Path α} (h : fs.lookup p ≠ none) :
    p.length ≤ fs.height := by
  by_cases hp : p = []
  · rw [hp]
    exact Nat.zero_le _
  · unfold lookup find at h
    rw [if_neg hp, Ne, AList.lookup_eq_none, Classical.not_not, AList.mem_keys] at h
    have hle (ns : List Nat) : ∀ n ∈ ns, n ≤ ns.foldr max 0 := by
      intro n hn
      induction ns with
      | nil => cases hn
      | cons m ns ih =>
          rw [List.foldr_cons]
          rcases List.mem_cons.mp hn with hn | hn
          · omega
          · have hn := ih hn
            omega
    exact hle _ _ (List.mem_map_of_mem h)

end FileSystem

end Disk
