import TrashClear.PathTokens

/-!
# Laws of the two path columns

What the columns of `PathTokens` mean for whoever reads them.

* The first column of a path is read off its components: joining two paths joins
  their columns (`getAllPathMD5_append`), and two paths have one column exactly
  when they have the same components up to case, as long as the digest keeps
  these components apart (`getAllPathMD5_eq_iff`).
* What `getRootPath` takes is a directory on the way to the path, and taking it
  again takes it all (`getRootPath_directory`).
-/

namespace TrashClear

open Java Fields Run

variable (folding : CaseFolding) (H : HexDigest)

/-! ## The column of all components -/

/-- **The column of `p/q` is the two columns with a `+` between them**, or the
column of one path when the other has no component. -/
theorem getAllPathMD5_append (key : SaltSource) (p q : JString) :
    ∃ hp hq, getAllPathMD5 folding H key.text p = .ok hp ∧
      getAllPathMD5 folding H key.text q = .ok hq ∧
      getAllPathMD5 folding H key.text (p ++ slash :: q) =
        .ok (if components slash p = [] then hq
          else if components slash q = [] then hp
          else hp ++ plus :: hq) := by
  refine ⟨_, _, getAllPathMD5_eq folding H key p, getAllPathMD5_eq folding H key q, ?_⟩
  rw [getAllPathMD5_eq, components_append, List.map_append]
  by_cases hp : components slash p = []
  · simp [hp]
  · by_cases hq : components slash q = []
    · simp [hp, hq]
    · rw [if_neg hp, if_neg hq]
      exact congrArg Except.ok (intercalate_append plus (by simpa using hp) (by simpa using hq))

/-- The texts that are hashed for the components of a path. -/
def saltedComponents (key path : JString) : List JString :=
  (components slash path).map fun piece => folding.toLowerCase piece ++ saltDigits key

/-- The digest tells the given texts apart. -/
def Separates (texts : List JString) : Prop :=
  ∀ x ∈ texts, ∀ y ∈ texts, H.md5Hex x = H.md5Hex y → x = y

instance (texts : List JString) : Decidable (Separates H texts) := by
  unfold Separates
  infer_instance

/-- The tokens of separated texts determine them. -/
theorem map_token_injective {key : JString} {ps qs : List JString}
    (hsep : ∀ p ∈ ps, ∀ q ∈ qs, token folding H (some p) key = token folding H (some q) key →
      folding.toLowerCase p = folding.toLowerCase q)
    (h : (ps.map fun p => token folding H (some p) key) =
      qs.map fun q => token folding H (some q) key) :
    ps.map folding.toLowerCase = qs.map folding.toLowerCase := by
  induction ps generalizing qs with
  | nil =>
      have hqs : qs = [] := by simpa using h.symm
      rw [hqs]
  | cons p ps ih =>
      cases qs with
      | nil => simp at h
      | cons q qs =>
          rw [List.map_cons, List.map_cons, List.cons.injEq] at h
          have hhead := hsep p (by simp) q (by simp) h.1
          have htail := ih (fun p hp q hq => hsep p (List.mem_cons_of_mem _ hp) q
            (List.mem_cons_of_mem _ hq)) h.2
          rw [List.map_cons, List.map_cons, hhead, htail]

/-- **Two paths have one column exactly when they have the same components up to
case.** -/
theorem getAllPathMD5_eq_iff (key : SaltSource) {p q : JString}
    (hsep : Separates H (saltedComponents folding key.text p ++
      saltedComponents folding key.text q)) :
    getAllPathMD5 folding H key.text p = getAllPathMD5 folding H key.text q ↔
      (components slash p).map folding.toLowerCase =
        (components slash q).map folding.toLowerCase := by
  constructor
  · intro h
    rw [getAllPathMD5_eq, getAllPathMD5_eq, Except.ok.injEq] at h
    have hwidth (path : JString) : ∀ t ∈ (components slash path).map fun piece =>
        token folding H (some piece) key.text, t.length = 48 := by
      intro t ht
      obtain ⟨piece, _, rfl⟩ := List.mem_map.mp ht
      exact length_token folding H (some piece) key.text
    refine map_token_injective folding H ?_
      (intercalate_injective (by decide) (hwidth p) (hwidth q) h)
    intro a ha b hb htoken
    have hdigest := (token_eq_iff folding H (some a) (some b) key.text).mp htoken
    have hsame := hsep _ (List.mem_append_left _ (List.mem_map_of_mem ha)) _
      (List.mem_append_right _ (List.mem_map_of_mem hb)) hdigest
    exact List.append_cancel_right hsame
  · intro h
    exact getAllPathMD5_congr folding H h key

/-- The law for the paths `A/b` and `a//b/`. -/
theorem getAllPathMD5_eq_iff_case :
    getAllPathMD5 asciiFolding (separating (js "a" ++ saltDigits (js "key"))) (js "key")
        (js "A/b") =
      getAllPathMD5 asciiFolding (separating (js "a" ++ saltDigits (js "key"))) (js "key")
        (js "a//b/") ↔
      (components slash (js "A/b")).map asciiFolding.toLowerCase =
        (components slash (js "a//b/")).map asciiFolding.toLowerCase :=
  getAllPathMD5_eq_iff asciiFolding _ ⟨js "key", by decide⟩ (by decide)

/-! ## What `getRootPath` takes -/

/-- The pieces of a text whose first piece is known. -/
theorem pieces_append {a : JString} (h : slash ∉ a) (rest : JString) :
    firstPiece (a ++ slash :: rest) = a ∧ secondPiece (a ++ slash :: rest) = firstPiece rest := by
  unfold firstPiece secondPiece
  rw [List.splitOn_append_cons_self_of_not_mem h]
  exact ⟨rfl, rfl⟩

/-- A text is its first piece, or goes on after a slash. -/
theorem eq_firstPiece_or (path : JString) :
    (slash ∉ path ∧ firstPiece path = path) ∨
      ∃ rest, path = firstPiece path ++ slash :: rest ∧ secondPiece path = firstPiece rest := by
  by_cases hslash : slash ∈ path
  · obtain ⟨a, rest, rfl, ha⟩ := List.eq_append_cons_of_mem hslash
    obtain ⟨hfirst, hsecond⟩ := pieces_append ha rest
    exact Or.inr ⟨rest, by rw [hfirst], hsecond⟩
  · exact Or.inl ⟨hslash, by simp [firstPiece, List.splitOn_eq_singleton hslash]⟩

/-- The second list of heads is about the first piece only. -/
theorem startsWith_condition2_iff (path : JString) :
    StartsWithAny condition2 path ↔ slash ∈ path ∧ firstPiece path ++ [slash] ∈ condition2 := by
  constructor
  · intro h
    obtain ⟨head, hhead, rest, rfl⟩ := h
    have hheads : ∀ head ∈ condition2, firstPiece head ++ [slash] = head := by decide
    have heq := hheads head hhead
    have hfirst : firstPiece (head ++ rest) = firstPiece head := by
      conv_lhs => rw [← heq, List.append_assoc, List.singleton_append]
      exact (pieces_append (slash_not_mem_firstPiece head) rest).1
    refine ⟨?_, by rw [hfirst, heq]; exact hhead⟩
    rw [← heq]
    simp
  · intro h
    obtain ⟨hslash, hhead⟩ := h
    rcases eq_firstPiece_or path with ⟨hnot, _⟩ | ⟨rest, hpath, _⟩
    · exact absurd hslash hnot
    · refine ⟨_, hhead, rest, ?_⟩
      rw [List.append_assoc, List.singleton_append, ← hpath]

/-- A path has as many pieces as a head of the first list, or more. -/
theorem three_le_pieceCount {path : JString} (h : StartsWithAny condition1 path) :
    3 ≤ pieceCount path := by
  obtain ⟨a, b, rest, _, _, hsplitOn, hrest⟩ := splitOn_of_condition1 h
  have hpos := List.length_pos_iff.mpr hrest
  rw [pieceCount, hsplitOn]
  simp only [List.length_cons]
  omega

/-- A text without a slash is taken whole. -/
theorem getRootPath_of_not_mem {path : JString} (h : slash ∉ path) :
    getRootPath path = .ok path := by
  have hone : ¬ StartsWithAny condition1 path := by
    intro hhead
    have hpieces := three_le_pieceCount hhead
    rw [pieceCount, List.splitOn_eq_singleton h] at hpieces
    simp at hpieces
  have htwo : ¬ StartsWithAny condition2 path := fun hhead =>
    h ((startsWith_condition2_iff path).mp hhead).1
  unfold getRootPath
  rw [if_neg hone, if_neg htwo, split_of_not_mem h]
  rfl

/-- Two pieces behind a head of the second list are taken whole. -/
theorem getRootPath_two {path : JString} (htwo : rule path = .two) :
    getRootPath (firstPiece path ++ slash :: secondPiece path) =
      .ok (firstPiece path ++ slash :: secondPiece path) := by
  have hpieces := splitOn_two path
  obtain ⟨hfirst, hsecond⟩ := pieces_append (slash_not_mem_firstPiece path) (secondPiece path)
  have hlast : firstPiece (secondPiece path) = secondPiece path := by
    rw [firstPiece, List.splitOn_eq_singleton (slash_not_mem_secondPiece path)]
    rfl
  rw [hlast] at hsecond
  have hhead := condition2_of_rule htwo
  have hrule : rule (firstPiece path ++ slash :: secondPiece path) = .two := by
    have hone : ¬ StartsWithAny condition1 (firstPiece path ++ slash :: secondPiece path) := by
      intro hcond
      have hcount := three_le_pieceCount hcond
      rw [pieceCount, hpieces] at hcount
      simp at hcount
    have hcond : StartsWithAny condition2 (firstPiece path ++ slash :: secondPiece path) := by
      rw [startsWith_condition2_iff, hfirst]
      exact ⟨by simp, ((startsWith_condition2_iff path).mp hhead).2⟩
    unfold rule
    rw [if_neg hone, if_pos hcond]
  have hcomponents : components slash (firstPiece path ++ slash :: secondPiece path) ≠ [] := by
    obtain ⟨a, rest, ha, _, _, hsplitOn, _⟩ := splitOn_of_condition2 hhead
    have hne : firstPiece path ≠ [] := by simpa [firstPiece, hsplitOn] using ha
    simp [components_of_splitOn hne hpieces]
  rw [getRootPath_eq hcomponents]
  unfold taken
  simp only [hrule, hfirst, hsecond, ite_self]

/-- `root` is the path, or a directory on the way to it. -/
def IsDirectoryOf (root path : JString) : Prop := root = path ∨ root ++ [slash] <+: path

/-- The first piece is a directory on the way. -/
theorem isDirectoryOf_firstPiece (path : JString) : IsDirectoryOf (firstPiece path) path := by
  rcases eq_firstPiece_or path with ⟨_, hfirst⟩ | ⟨rest, hpath, _⟩
  · exact Or.inl hfirst
  · refine Or.inr ⟨rest, ?_⟩
    rw [List.append_assoc, List.singleton_append, ← hpath]

/-- The first two pieces are a directory on the way, when there are two. -/
theorem isDirectoryOf_two {path : JString} (h : slash ∈ path) :
    IsDirectoryOf (firstPiece path ++ slash :: secondPiece path) path := by
  rcases eq_firstPiece_or path with ⟨hnot, _⟩ | ⟨rest, hpath, hsecond⟩
  · exact absurd h hnot
  · rw [hsecond]
    rcases isDirectoryOf_firstPiece rest with hrest | ⟨tail, htail⟩
    · exact Or.inl (by rw [hrest, ← hpath])
    · refine Or.inr ⟨tail, ?_⟩
      rw [List.append_assoc, List.append_assoc, List.cons_append, ← List.append_assoc, htail,
        ← hpath]

/-- A text with few pieces has few components. -/
theorem length_components_le (path : JString) :
    (components slash path).length ≤ pieceCount path :=
  List.length_filter_le _ _

/-- **What `getRootPath` takes** of a path that is not made of slashes alone is the
path or a directory on the way to it, taking it again takes it all, and it has at
most two components unless the path has a head of the first list. -/
theorem getRootPath_directory {path : JString} (h : ∃ u ∈ path, u ≠ slash) :
    ∃ root, getRootPath path = .ok root ∧ IsDirectoryOf root path ∧
      getRootPath root = .ok root ∧
      (StartsWithAny condition1 path ∨ (components slash root).length ≤ 2) := by
  have hreturns := getRootPath_eq (components_ne_nil h)
  refine ⟨taken path, hreturns, ?_⟩
  unfold taken at hreturns ⊢
  cases hrule : rule path with
  | whole =>
      rw [hrule] at hreturns
      exact ⟨Or.inl rfl, hreturns, Or.inl (condition1_of_rule hrule)⟩
  | two =>
      rw [hrule] at hreturns
      simp only at hreturns ⊢
      by_cases hone : (components slash path).length = 1
      · rw [if_pos hone] at hreturns ⊢
        exact ⟨Or.inl rfl, hreturns, Or.inr (by omega)⟩
      · have hslash := ((startsWith_condition2_iff path).mp (condition2_of_rule hrule)).1
        have hlen := length_components_le (firstPiece path ++ slash :: secondPiece path)
        rw [pieceCount, splitOn_two] at hlen
        rw [if_neg hone]
        exact ⟨isDirectoryOf_two hslash, getRootPath_two hrule, Or.inr hlen⟩
  | first =>
      have hslash := slash_not_mem_firstPiece path
      have hlen := length_components_le (firstPiece path)
      rw [pieceCount, List.splitOn_eq_singleton hslash] at hlen
      exact ⟨isDirectoryOf_firstPiece path, getRootPath_of_not_mem hslash,
        Or.inr (hlen.trans (by simp))⟩

/-- The law for the path `data//x`, of which `data/` is taken. -/
theorem getRootPath_directory_data :
    ∃ root, getRootPath (js "data//x") = .ok root ∧ IsDirectoryOf root (js "data//x") ∧
      getRootPath root = .ok root ∧
      (StartsWithAny condition1 (js "data//x") ∨ (components slash root).length ≤ 2) :=
  getRootPath_directory ⟨0x64, by decide, by decide⟩

end TrashClear
