import Mathlib.Data.List.DropRight

/-!
# Fields between separators

A delimited text is cut at every separator.  Two readings of the pieces are
used by line-oriented formats: `split` keeps inner empty pieces but forgets the
empty ones at the end, and returns a text without the separator unchanged, even
the empty text; `components` keeps exactly the non-empty pieces.

`split_intercalate` is the round trip of a format: joining fields that do not
contain the separator, the last one non-empty, and splitting again gives the
fields back.  `intercalate_injective` is another format: fields of one width may
contain the separator.  `components_split` says that the two readings agree on the
non-empty pieces, and `nil_mem_split_iff` when `split` has others.
-/

namespace Fields

variable {α : Type}

/-- Nothing is dropped from a list of fields whose last field is non-empty. -/
theorem rdropWhile_isEmpty_eq_self {fields : List (List α)} (hne : fields ≠ [])
    (hlast : fields.getLast hne ≠ []) :
    fields.rdropWhile List.isEmpty = fields := by
  rw [List.rdropWhile_eq_self_iff]
  intro _
  simpa using hlast

/-- A non-empty piece in front stays in front. -/
theorem rdropWhile_isEmpty_cons {piece : List α} (h : piece ≠ []) (pieces : List (List α)) :
    (piece :: pieces).rdropWhile List.isEmpty = piece :: pieces.rdropWhile List.isEmpty := by
  induction pieces using List.reverseRecOn with
  | nil => exact rdropWhile_isEmpty_eq_self (by simp) (by simpa using h)
  | append_singleton pieces last ih =>
      rw [← List.cons_append]
      cases last with
      | nil => rw [List.rdropWhile_concat_pos _ _ _ (by simp),
          List.rdropWhile_concat_pos _ _ _ (by simp), ih]
      | cons x xs => rw [List.rdropWhile_concat_neg _ _ _ (by simp),
          List.rdropWhile_concat_neg _ _ _ (by simp), List.cons_append]

/-- Pieces in front of a non-empty one are kept. -/
theorem rdropWhile_isEmpty_append (pieces : List (List α)) {pieces' : List (List α)}
    (h : ∃ piece ∈ pieces', piece ≠ []) :
    (pieces ++ pieces').rdropWhile List.isEmpty = pieces ++ pieces'.rdropWhile List.isEmpty := by
  induction pieces' using List.reverseRecOn with
  | nil => simp at h
  | append_singleton pieces' last ih =>
      rw [← List.append_assoc]
      cases last with
      | nil =>
          rw [List.rdropWhile_concat_pos _ _ _ (by simp),
            List.rdropWhile_concat_pos _ _ _ (by simp)]
          refine ih ?_
          obtain ⟨piece, hpiece, hne⟩ := h
          rcases List.mem_append.mp hpiece with hpiece | hpiece
          · exact ⟨piece, hpiece, hne⟩
          · exact absurd (List.mem_singleton.mp hpiece) hne
      | cons x xs => rw [List.rdropWhile_concat_neg _ _ _ (by simp),
          List.rdropWhile_concat_neg _ _ _ (by simp), List.append_assoc]

/-- The last piece that `split` keeps is not empty. -/
theorem exists_of_rdropWhile_isEmpty {pieces pre post : List (List α)}
    (h : pieces.rdropWhile List.isEmpty = pre ++ [] :: post) : ∃ piece ∈ post, piece ≠ [] := by
  have hne : pieces.rdropWhile List.isEmpty ≠ [] := by simp [h]
  have hlast := List.rdropWhile_last_not List.isEmpty pieces hne
  simp only [h] at hlast
  cases post using List.reverseRecOn with
  | nil => simp at hlast
  | append_singleton post last =>
      refine ⟨last, by simp, ?_⟩
      simpa using hlast

/-- Dropping empty pieces at the end loses no non-empty piece. -/
theorem filter_rdropWhile_isEmpty (pieces : List (List α)) :
    (pieces.rdropWhile List.isEmpty).filter (fun piece => !piece.isEmpty) =
      pieces.filter (fun piece => !piece.isEmpty) := by
  induction pieces using List.reverseRecOn with
  | nil => simp
  | append_singleton pieces last ih =>
      cases last with
      | nil =>
          rw [List.rdropWhile_concat_pos _ _ _ (by simp), ih]
          simp
      | cons x xs => rw [List.rdropWhile_concat_neg _ _ _ (by simp)]

/-- The separator occurs in a join of at least two fields. -/
theorem sep_mem_intercalate (sep : α) (first second : List α) (rest : List (List α)) :
    sep ∈ [sep].intercalate (first :: second :: rest) := by
  simp

/-- A join has no elements but those of the separator and the fields. -/
theorem not_mem_intercalate {sep x : α} {fields : List (List α)} (hsep : x ≠ sep)
    (hfields : ∀ field ∈ fields, x ∉ field) : x ∉ [sep].intercalate fields := by
  induction fields with
  | nil => simp
  | cons first rest ih =>
      have hfirst := hfields first (by simp)
      have hrest := ih (fun field hfield => hfields field (List.mem_cons_of_mem _ hfield))
      cases rest with
      | nil => simpa using hfirst
      | cons second rest =>
          rw [List.intercalate_cons_cons]
          simp only [List.mem_append, List.mem_singleton, not_or]
          exact ⟨⟨hfirst, hsep⟩, hrest⟩

/-- A join has the elements of its fields. -/
theorem mem_intercalate {sep x : α} {fields : List (List α)} {field : List α}
    (hfield : field ∈ fields) (hx : x ∈ field) : x ∈ [sep].intercalate fields := by
  induction fields with
  | nil => simp at hfield
  | cons first rest ih =>
      cases rest with
      | nil =>
          obtain rfl := List.mem_singleton.mp hfield
          simpa using hx
      | cons second rest =>
          rw [List.intercalate_cons_cons]
          rcases List.mem_cons.mp hfield with rfl | hfield
          · simp [hx]
          · exact List.mem_append_right _ (ih hfield)

/-- Two groups of fields, joined. -/
theorem intercalate_append (sep : α) {fields fields' : List (List α)} (h : fields ≠ [])
    (h' : fields' ≠ []) :
    [sep].intercalate (fields ++ fields') =
      [sep].intercalate fields ++ sep :: [sep].intercalate fields' := by
  induction fields with
  | nil => exact absurd rfl h
  | cons first rest ih =>
      cases rest with
      | nil =>
          obtain ⟨next, others, rfl⟩ := List.exists_cons_of_ne_nil h'
          simp
      | cons second rest =>
          have hrest := ih (by simp)
          rw [List.cons_append] at hrest
          rw [List.cons_append, List.cons_append, List.intercalate_cons_cons, hrest]
          simp

/-- **Fields of one width can be read back from their join**, whatever they
contain: the separator may occur in them. -/
theorem intercalate_injective {sep : α} {n : Nat} (hn : 0 < n) {fields fields' : List (List α)}
    (hwidth : ∀ field ∈ fields, field.length = n) (hwidth' : ∀ field ∈ fields', field.length = n)
    (h : [sep].intercalate fields = [sep].intercalate fields') : fields = fields' := by
  have hfirst (first : List α) (rest : List (List α)) :
      ∃ tail, [sep].intercalate (first :: rest) = first ++ tail ∧
        ((rest = [] ∧ tail = []) ∨ (rest ≠ [] ∧ tail = sep :: [sep].intercalate rest)) := by
    cases rest with
    | nil => exact ⟨[], by simp, Or.inl ⟨rfl, rfl⟩⟩
    | cons second rest => exact ⟨_, by simp, Or.inr ⟨by simp, rfl⟩⟩
  induction fields generalizing fields' with
  | nil =>
      cases fields' with
      | nil => rfl
      | cons first' rest' =>
          obtain ⟨tail, htail, _⟩ := hfirst first' rest'
          have hlen := congrArg List.length (h.trans htail)
          have hfirst' := hwidth' first' (by simp)
          simp only [List.intercalate_nil, List.length_nil, List.length_append] at hlen
          omega
  | cons first rest ih =>
      obtain ⟨tail, htail, hcase⟩ := hfirst first rest
      have hlenFirst := hwidth first (by simp)
      cases fields' with
      | nil =>
          have hlen := congrArg List.length (htail.symm.trans h)
          simp only [List.intercalate_nil, List.length_nil, List.length_append] at hlen
          omega
      | cons first' rest' =>
          obtain ⟨tail', htail', hcase'⟩ := hfirst first' rest'
          rw [htail, htail'] at h
          obtain ⟨hsame, htails⟩ :=
            List.append_inj h (hlenFirst.trans (hwidth' first' (by simp)).symm)
          subst first' tail'
          rcases hcase with ⟨rfl, rfl⟩ | ⟨hne, rfl⟩
          · rcases hcase' with ⟨rfl, _⟩ | ⟨_, hcons⟩
            · rfl
            · cases hcons
          · rcases hcase' with ⟨_, hnil⟩ | ⟨_, hcons⟩
            · cases hnil
            · have hrest := ih (fun field hfield => hwidth field (List.mem_cons_of_mem _ hfield))
                (fun field hfield => hwidth' field (List.mem_cons_of_mem _ hfield))
                (List.cons.inj hcons).2
              rw [hrest]

variable [DecidableEq α]

/-- Cut at every separator and drop the empty pieces at the end.  A list
without the separator is its own only field. -/
def split (sep : α) (xs : List α) : List (List α) :=
  if sep ∈ xs then (xs.splitOn sep).rdropWhile List.isEmpty else [xs]

/-- The non-empty pieces between separators, in order. -/
def components (sep : α) (xs : List α) : List (List α) :=
  (xs.splitOn sep).filter (fun piece => !piece.isEmpty)

/-- A list without the separator is a single field. -/
theorem split_of_not_mem {sep : α} {xs : List α} (h : sep ∉ xs) :
    split sep xs = [xs] := by
  simp [split, h]

/-- **Round trip.**  Splitting a join of separator-free fields whose last one
is non-empty gives the fields back. -/
theorem split_intercalate {sep : α} {fields : List (List α)} (hne : fields ≠ [])
    (hsep : ∀ field ∈ fields, sep ∉ field) (hlast : fields.getLast hne ≠ []) :
    split sep ([sep].intercalate fields) = fields := by
  match fields with
  | [] => exact absurd rfl hne
  | [only] =>
      have honly : sep ∉ only := hsep only (by simp)
      simpa using split_of_not_mem honly
  | first :: second :: rest =>
      unfold split
      rw [if_pos (sep_mem_intercalate sep first second rest),
        List.splitOn_intercalate sep hsep hne]
      exact rdropWhile_isEmpty_eq_self hne hlast

/-- Reading the pieces determines the list. -/
theorem splitOn_injective {sep : α} {xs ys : List α}
    (h : xs.splitOn sep = ys.splitOn sep) : xs = ys := by
  have hjoin := congrArg [sep].intercalate h
  simpa using hjoin

/-- No piece contains the separator. -/
theorem sep_not_mem_of_mem_splitOn {sep : α} {xs piece : List α} (h : piece ∈ xs.splitOn sep) :
    sep ∉ piece := by
  induction xs generalizing piece with
  | nil =>
      rw [List.splitOn_nil, List.mem_singleton] at h
      simp [h]
  | cons x xs ih =>
      rw [List.splitOn_cons_eq_if_modifyHead] at h
      by_cases hx : x = sep
      · simp only [hx, BEq.rfl, if_true, List.mem_cons] at h
        rcases h with rfl | h
        · simp
        · exact ih h
      · cases hxs : xs.splitOn sep with
        | nil => exact absurd hxs (List.splitOn_ne_nil _ _)
        | cons first rest =>
            rw [hxs] at h ih
            simp only [beq_iff_eq, hx, if_false, List.modifyHead_cons, List.mem_cons] at h
            rcases h with rfl | h
            · simp [Ne.symm hx, ih List.mem_cons_self]
            · exact ih (List.mem_cons_of_mem _ h)

/-- `split` and `components` agree on the non-empty pieces. -/
theorem components_split (sep : α) (xs : List α) :
    (split sep xs).filter (fun piece => !piece.isEmpty) = components sep xs := by
  unfold split components
  split
  · exact filter_rdropWhile_isEmpty _
  · rename_i h
    rw [List.splitOn_eq_singleton h]

/-- The components of two lists with a separator between them. -/
theorem components_append (sep : α) (xs ys : List α) :
    components sep (xs ++ sep :: ys) = components sep xs ++ components sep ys := by
  unfold components
  rw [List.splitOn_append_cons_self, List.filter_append]

/-- Fields that are not empty and free of the separator are the components of
their join. -/
theorem components_intercalate {sep : α} {fields : List (List α)}
    (hsep : ∀ field ∈ fields, sep ∉ field) (hne : ∀ field ∈ fields, field ≠ []) :
    components sep ([sep].intercalate fields) = fields := by
  unfold components
  cases fields with
  | nil => rfl
  | cons first rest =>
      rw [List.splitOn_intercalate sep hsep (List.cons_ne_nil first rest), List.filter_eq_self]
      intro field hfield
      simpa using hne field hfield

/-- A list that is not made of separators alone has a component. -/
theorem components_ne_nil {sep : α} {xs : List α} (h : ∃ x ∈ xs, x ≠ sep) :
    components sep xs ≠ [] := by
  induction xs with
  | nil => simp at h
  | cons y ys ih =>
      unfold components at ih ⊢
      rw [List.splitOn_cons_eq_if_modifyHead]
      by_cases hy : y = sep
      · subst y
        obtain ⟨x, hx, hxs⟩ := h
        have hys : x ∈ ys := by
          rcases List.mem_cons.mp hx with rfl | hx
          · exact absurd rfl hxs
          · exact hx
        simpa using ih ⟨x, hys, hxs⟩
      · cases hp : ys.splitOn sep with
        | nil => exact absurd hp (List.splitOn_ne_nil _ _)
        | cons first rest => simp [hy]

/-- With a component, `split` is the piece list up to the last non-empty piece. -/
theorem split_eq_rdropWhile {sep : α} {xs : List α} (h : components sep xs ≠ []) :
    split sep xs = (xs.splitOn sep).rdropWhile List.isEmpty := by
  unfold split
  split
  · rfl
  · rename_i hmem
    rw [List.splitOn_eq_singleton hmem]
    have hxs : xs ≠ [] := by
      intro hnil
      subst xs
      exact h (by simp [components])
    rw [rdropWhile_isEmpty_eq_self (by simp) (by simpa using hxs)]

/-- An empty piece after which a non-empty one is kept shows in the list: a separator
at its front, or behind another separator, and not only separators after it. -/
def HasGap (sep : α) (xs : List α) : Prop :=
  ∃ before after, xs = before ++ sep :: after ∧ (before = [] ∨ before.getLast? = some sep) ∧
    ∃ x ∈ after, x ≠ sep

/-- **`split` keeps an empty piece** exactly of the empty list and of a list with a
gap. -/
theorem nil_mem_split_iff {sep : α} {xs : List α} :
    [] ∈ split sep xs ↔ xs = [] ∨ HasGap sep xs := by
  constructor
  · intro h
    by_cases hsep : sep ∈ xs
    · right
      unfold split at h
      rw [if_pos hsep] at h
      obtain ⟨pre, post, hkept⟩ := List.append_of_mem h
      obtain ⟨piece, hpiece, hne⟩ := exists_of_rdropWhile_isEmpty hkept
      obtain ⟨dropped, hdropped⟩ := List.rdropWhile_prefix List.isEmpty (xs.splitOn sep)
      rw [hkept, List.append_assoc, List.cons_append] at hdropped
      have hpost : post ++ dropped ≠ [] := by
        intro hnil
        simp [(List.append_eq_nil_iff.mp hnil).1] at hpiece
      -- the piece after the gap has an element, and no separator
      have hafter : ∃ x ∈ [sep].intercalate (post ++ dropped), x ≠ sep := by
        obtain ⟨x, rest, rfl⟩ := List.exists_cons_of_ne_nil hne
        have hmem : x :: rest ∈ xs.splitOn sep := by
          rw [← hdropped]
          simp [hpiece]
        refine ⟨x, mem_intercalate (List.mem_append_left _ hpiece) (by simp), ?_⟩
        intro hx
        exact sep_not_mem_of_mem_splitOn hmem (by simp [hx])
      have hxs : xs = [sep].intercalate (pre ++ ([[]] ++ (post ++ dropped))) := by
        rw [List.singleton_append, hdropped, List.intercalate_splitOn]
      have hgap := intercalate_append sep (List.cons_ne_nil ([] : List α) []) hpost
      rw [List.intercalate_singleton, List.nil_append] at hgap
      cases pre with
      | nil =>
          rw [List.nil_append, hgap] at hxs
          exact ⟨[], _, hxs, Or.inl rfl, hafter⟩
      | cons first pre =>
          rw [intercalate_append sep (by simp) (by simp), hgap] at hxs
          refine ⟨[sep].intercalate (first :: pre) ++ [sep], _, ?_, Or.inr (by simp), hafter⟩
          rw [hxs, List.append_assoc, List.singleton_append]
    · left
      rw [split_of_not_mem hsep, List.mem_singleton] at h
      exact h.symm
  · intro h
    rcases h with rfl | ⟨before, after, rfl, hends, x, hx, hne⟩
    · simp [split]
    · have hempty : [] ∈ before.splitOn sep := by
        rcases hends with rfl | hends
        · simp
        · obtain ⟨front, rfl⟩ := List.getLast?_eq_some_iff.mp hends
          rw [List.splitOn_append_cons_self]
          simp
      have hpiece : ∃ piece ∈ after.splitOn sep, piece ≠ [] := by
        obtain ⟨piece, hpiece⟩ := List.exists_mem_of_ne_nil _ (components_ne_nil ⟨x, hx, hne⟩)
        rw [components, List.mem_filter] at hpiece
        exact ⟨piece, hpiece.1, by simpa using hpiece.2⟩
      unfold split
      rw [if_pos (by simp), List.splitOn_append_cons_self, rdropWhile_isEmpty_append _ hpiece]
      exact List.mem_append_left _ hempty

/-- The pieces that `split` keeps are the components when none of them is empty. -/
theorem split_eq_components_iff {sep : α} {xs : List α} :
    split sep xs = components sep xs ↔ [] ∉ split sep xs := by
  rw [← components_split, eq_comm, List.filter_eq_self]
  constructor
  · intro h hnil
    simpa using h [] hnil
  · intro h piece hpiece
    cases piece with
    | nil => exact absurd hpiece h
    | cons x rest => rfl

/-- Nothing is left of separators alone. -/
theorem split_replicate (sep : α) (k : Nat) : split sep (List.replicate (k + 1) sep) = [] := by
  have hpieces : ∀ k : Nat, (List.replicate k sep).splitOn sep = List.replicate (k + 1) [] := by
    intro k
    induction k with
    | zero => simp
    | succ k ih =>
        rw [List.replicate_succ, List.splitOn_cons_eq_if_modifyHead, ih]
        simp [List.replicate_succ]
  unfold split
  rw [if_pos (by simp), hpieces, List.rdropWhile_eq_nil_iff]
  intro piece hpiece
  simp [(List.mem_replicate.mp hpiece).2]

end Fields
