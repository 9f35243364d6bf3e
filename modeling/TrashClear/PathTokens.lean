import TrashClear.LocalFileParser
import TrashClear.MD5EncryptUtils

/-!
# The two path columns

A root path is stored twice: `getAllPathMD5` writes one token for every non-empty
component, and `getRootPath` chooses a part of the path whose token is stored as
the first path.  The first reading forgets case and superfluous slashes; the
second looks at the path as it is written: eighteen literal heads select how much
of it is taken, and otherwise it takes what stands before the first slash.

* `getAllPathMD5_eq` and `getAllPathMD5_congr`: the first column depends on the
  lower-cased components only.
* `getRootPath_eq` says what is taken in each case.
* `firstPath_tokens_agree_iff` says for which spellings of one stored path the
  first-path tokens agree.
-/

namespace TrashClear

open Java Fields Run

variable (folding : CaseFolding) (H : HexDigest)

def plus : UInt16 := 0x2B

/-- One turn of the loop of `getAllPathMD5`. -/
def addPathMD5 (key md5 p : JString) : Except Throwable JString :=
  if TextUtils.isEmpty p then return md5
  else do
    let md5 := if TextUtils.isEmpty md5 then md5 else md5 ++ [plus]
    return md5 ++ (← encrypt folding H (some p) key)

def getAllPathMD5 (key path : JString) : Except Throwable JString :=
  (split slash path).foldlM (addPathMD5 folding H key) []

def condition1 : List JString :=
  [js "android/data/", js "data/data/", js "dcim/camera/"]

def condition2 : List JString :=
  [js "dcim/", js "pictures/", js "download/", js "ringtones/", js "data/", js "tencent/",
    js "miui/", js "baidu/", js "sogou/", js "sina/", js "youku/", js "youtube/", js "osmdroid/",
    js "hjapp/", js "youdao/"]

/-- The path starts with one of the heads. -/
def StartsWithAny (heads : List JString) (path : JString) : Prop := ∃ head ∈ heads, head <+: path

instance (heads : List JString) (path : JString) : Decidable (StartsWithAny heads path) := by
  unfold StartsWithAny
  infer_instance

def getRootPath (path : JString) : Except Throwable JString :=
  if StartsWithAny condition1 path then return path
  else if StartsWithAny condition2 path then do
    let paths := split slash path
    if paths.length ≤ 1 then return path
    else return (← elem paths 0) ++ slash :: (← elem paths 1)
  else
    -- the first directory
    elem (split slash path) 0

/-- What is stored as the first path. -/
def firstPathToken (path key : JString) : Except Throwable JString := do
  encrypt folding H (some (← getRootPath path)) key

/-! ## The column of all components -/

/-- Tokens, a `+` between them. -/
def joinTokens (tokens : List JString) : JString := [plus].intercalate tokens

theorem addPathMD5_of_ne_nil {key : SaltSource} {md5 p : JString} (hp : p ≠ []) :
    addPathMD5 folding H key.text md5 p =
      .ok ((if md5 = [] then [] else md5 ++ [plus]) ++ token folding H (some p) key.text) := by
  unfold addPathMD5
  rw [encrypt_eq folding H _ key.fits]
  by_cases hmd5 : md5 = []
  · simp [TextUtils.isEmpty, hp, hmd5]
  · simp [TextUtils.isEmpty, hp, hmd5]

/-- The first column: the tokens of the non-empty components. -/
theorem getAllPathMD5_eq (key : SaltSource) (path : JString) :
    getAllPathMD5 folding H key.text path =
      .ok (joinTokens
        ((components slash path).map fun p => token folding H (some p) key.text)) := by
  have hne (p : JString) : token folding H (some p) key.text ≠ [] := by
    intro h
    have hlen := length_token folding H (some p) key.text
    rw [h] at hlen
    simp at hlen
  have hloop : ∀ (pieces : List JString) (md5 : JString), md5 ≠ [] →
      pieces.foldlM (addPathMD5 folding H key.text) md5 =
        .ok (joinTokens (md5 :: (pieces.filter fun piece => !piece.isEmpty).map
          fun p => token folding H (some p) key.text)) := by
    intro pieces
    induction pieces with
    | nil =>
        intro md5 _
        simp [joinTokens]
    | cons piece pieces ih =>
        intro md5 hmd5
        rw [List.foldlM_cons]
        by_cases hp : piece = []
        · rw [hp]
          simpa [addPathMD5, TextUtils.isEmpty] using ih md5 hmd5
        · rw [addPathMD5_of_ne_nil folding H hp, ok_bind, if_neg hmd5, ih _ (by simp [hmd5])]
          cases hrest : pieces.filter fun piece => !piece.isEmpty with
          | nil => simp [joinTokens, hp, hrest]
          | cons next rest => simp [joinTokens, hp, hrest]
  unfold getAllPathMD5
  rw [← components_split]
  induction split slash path with
  | nil => rfl
  | cons piece pieces ih =>
      rw [List.foldlM_cons]
      by_cases hp : piece = []
      · rw [hp]
        simpa [addPathMD5, TextUtils.isEmpty] using ih
      · rw [addPathMD5_of_ne_nil folding H hp, ok_bind, if_pos rfl, List.nil_append,
          hloop _ _ (hne piece)]
        simp [hp]

/-- The first column depends on the lower-cased components only. -/
theorem getAllPathMD5_congr {p q : JString}
    (h : (components slash p).map folding.toLowerCase =
      (components slash q).map folding.toLowerCase) (key : SaltSource) :
    getAllPathMD5 folding H key.text p = getAllPathMD5 folding H key.text q := by
  have hlower : (fun p => token folding H (some p) key.text) =
      (fun l => Weave.weave (H.md5Hex (l ++ saltDigits key.text)) (saltDigits key.text)) ∘
        folding.toLowerCase := rfl
  rw [getAllPathMD5_eq, getAllPathMD5_eq, hlower, ← List.map_map, ← List.map_map, h]

/-! ## What `getRootPath` takes -/

/-- The piece before the first slash. -/
def firstPiece (path : JString) : JString := (path.splitOn slash).getD 0 []

/-- The piece between the first two slashes. -/
def secondPiece (path : JString) : JString := (path.splitOn slash).getD 1 []

/-- The path has two components from the heads of the first list. -/
theorem splitOn_of_condition1 {path : JString} (h : StartsWithAny condition1 path) :
    ∃ a b rest, a ≠ [] ∧ b ≠ [] ∧ path.splitOn slash = a :: b :: rest ∧ rest ≠ [] := by
  have hheads : ∀ head ∈ condition1, ∃ a b : JString,
      a ≠ [] ∧ b ≠ [] ∧ slash ∉ a ∧ slash ∉ b ∧ head = a ++ slash :: (b ++ [slash]) := by
    have hread : ∀ head ∈ condition1, firstPiece head ≠ [] ∧ secondPiece head ≠ [] ∧
        slash ∉ firstPiece head ∧ slash ∉ secondPiece head ∧
        head = firstPiece head ++ slash :: (secondPiece head ++ [slash]) := by decide
    exact fun head hhead => ⟨_, _, hread head hhead⟩
  obtain ⟨head, hhead, rest, rfl⟩ := h
  obtain ⟨a, b, ha, hb, hsa, hsb, rfl⟩ := hheads head hhead
  refine ⟨a, b, rest.splitOn slash, ha, hb, ?_, List.splitOn_ne_nil _ _⟩
  rw [List.append_assoc, List.cons_append, List.splitOn_append_cons_self_of_not_mem hsa,
    List.append_assoc, List.singleton_append, List.splitOn_append_cons_self_of_not_mem hsb]

/-- The path starts with a lower-case component from the heads of the second list. -/
theorem splitOn_of_condition2 {path : JString} (h : StartsWithAny condition2 path) :
    ∃ a rest, a ≠ [] ∧ slash ∉ a ∧ (∀ u ∈ a, u < 0x80) ∧ path.splitOn slash = a :: rest ∧
      rest ≠ [] := by
  have hheads : ∀ head ∈ condition2, head.dropLast ≠ [] ∧ slash ∉ head.dropLast ∧
      (head.dropLast.all fun u => u < 0x80) = true ∧ head = head.dropLast ++ [slash] := by
    decide
  obtain ⟨head, hhead, rest, rfl⟩ := h
  obtain ⟨hne, hslash, hascii, heq⟩ := hheads head hhead
  refine ⟨head.dropLast, rest.splitOn slash, hne, hslash, ascii_of_all hascii, ?_,
    List.splitOn_ne_nil _ _⟩
  conv_lhs => rw [heq, List.append_assoc, List.singleton_append]
  exact List.splitOn_append_cons_self_of_not_mem hslash _

/-- The components of a path whose first piece is one. -/
theorem components_of_splitOn {path a : JString} {rest : List JString} (ha : a ≠ [])
    (h : path.splitOn slash = a :: rest) :
    components slash path = a :: rest.filter fun piece => !piece.isEmpty := by
  simp [components, h, ha]

/-- What `split` keeps of a path whose first piece is a component. -/
theorem split_of_splitOn {path a : JString} {rest : List JString} (ha : a ≠ [])
    (h : path.splitOn slash = a :: rest) :
    split slash path = a :: rest.rdropWhile List.isEmpty := by
  have hne : components slash path ≠ [] := by simp [components_of_splitOn ha h]
  rw [split_eq_rdropWhile hne, h, rdropWhile_isEmpty_cons ha]

/-- A path with a component has its first piece in front of all split pieces. -/
theorem elem_split_zero {path : JString} (h : components slash path ≠ []) :
    elem (split slash path) 0 = .ok (firstPiece path) := by
  have hbegins : split slash path <+: path.splitOn slash := by
    rw [split_eq_rdropWhile h]
    exact List.rdropWhile_prefix _ _
  cases hs : split slash path with
  | nil =>
      have hfilter := components_split slash path
      rw [hs] at hfilter
      exact absurd hfilter.symm h
  | cons x xs =>
      obtain ⟨rest, hrest⟩ := hbegins
      rw [hs, List.cons_append] at hrest
      simp [elem, firstPiece, ← hrest]

/-- How much of a path is taken. -/
inductive Rule
  | whole
  | two
  | first
  deriving DecidableEq, Repr

def rule (path : JString) : Rule :=
  if StartsWithAny condition1 path then .whole
  else if StartsWithAny condition2 path then .two
  else .first

theorem condition1_of_rule {path : JString} (h : rule path = .whole) :
    StartsWithAny condition1 path := by
  unfold rule at h
  split at h
  · assumption
  · split at h <;> cases h

theorem condition2_of_rule {path : JString} (h : rule path = .two) :
    StartsWithAny condition2 path := by
  unfold rule at h
  split at h
  · cases h
  · split at h
    · assumption
    · cases h

/-- What is taken of a path that has a component. -/
def taken (path : JString) : JString :=
  match rule path with
  | .whole => path
  | .two =>
      if (components slash path).length = 1 then path
      else firstPiece path ++ slash :: secondPiece path
  | .first => firstPiece path

/-- `getRootPath` returns for every path that has a component. -/
theorem getRootPath_eq {path : JString} (h : components slash path ≠ []) :
    getRootPath path = .ok (taken path) := by
  unfold getRootPath taken rule
  split
  · rfl
  split
  · rename_i htwo
    obtain ⟨a, rest, ha, _, _, hsplitOn, _⟩ := splitOn_of_condition2 htwo
    have hsplit := split_of_splitOn ha hsplitOn
    have hcomponents := components_of_splitOn ha hsplitOn
    rw [hcomponents, List.length_cons]
    by_cases hrest : rest.rdropWhile List.isEmpty = []
    · have hempty : (rest.filter fun piece => !piece.isEmpty) = [] := by
        rw [← filter_rdropWhile_isEmpty, hrest]
        rfl
      simp [hsplit, hrest, hempty]
    · have hnonempty : (rest.filter fun piece => !piece.isEmpty) ≠ [] := by
        intro hnil
        apply hrest
        rw [List.rdropWhile_eq_nil_iff]
        intro piece hpiece
        have hnone := List.filter_eq_nil_iff.mp hnil piece hpiece
        simpa using hnone
      obtain ⟨tail, htail⟩ := List.rdropWhile_prefix List.isEmpty rest
      cases hr : rest.rdropWhile List.isEmpty with
      | nil => exact absurd hr hrest
      | cons x xs =>
          rw [hr, List.cons_append] at htail
          rw [hr] at hsplit
          have hsecond : secondPiece path = x := by simp [secondPiece, hsplitOn, ← htail]
          simp [hsplit, hnonempty, elem, firstPiece, hsplitOn, hsecond]
  · exact elem_split_zero h

/-- Of slashes alone there is no first directory: the split array is empty. -/
theorem getRootPath_of_slashes {path : JString} (hne : path ≠ []) (h : ∀ u ∈ path, u = slash) :
    getRootPath path = .error .arrayIndexOutOfBounds := by
  obtain ⟨k, hk⟩ := Nat.exists_eq_succ_of_ne_zero (List.length_pos_iff.mpr hne).ne'
  have hpath : path = List.replicate (k + 1) slash := List.eq_replicate_iff.mpr ⟨hk, h⟩
  have hsplit : split slash path = [] := hpath ▸ split_replicate slash k
  have hcomponents : components slash path = [] := by
    rw [← components_split, hsplit]
    rfl
  have hone : ¬ StartsWithAny condition1 path := by
    intro hhead
    obtain ⟨a, b, rest, ha, _, hsplitOn, _⟩ := splitOn_of_condition1 hhead
    simp [components_of_splitOn ha hsplitOn] at hcomponents
  have htwo : ¬ StartsWithAny condition2 path := by
    intro hhead
    obtain ⟨a, rest, ha, _, _, hsplitOn, _⟩ := splitOn_of_condition2 hhead
    simp [components_of_splitOn ha hsplitOn] at hcomponents
  unfold getRootPath
  rw [if_neg hone, if_neg htwo, hsplit]
  rfl

/-! ## When the first-path tokens agree -/

/-- The number of pieces of a text. -/
def pieceCount (s : JString) : Nat := (s.splitOn slash).length

theorem pieceCount_toLowerCase (s : JString) :
    pieceCount (folding.toLowerCase s) = pieceCount s := by
  unfold pieceCount
  rw [folding.splitOn, List.length_map]

theorem toLowerCase_eq_nil {s : JString} : folding.toLowerCase s = [] ↔ s = [] := by
  constructor
  · exact folding.ne_nil s
  · intro h
    obtain rfl := h
    exact folding.ascii [] (by simp)

theorem slash_not_mem_firstPiece (path : JString) : slash ∉ firstPiece path := by
  unfold firstPiece
  cases h : path.splitOn slash with
  | nil => simp
  | cons x xs => exact sep_not_mem_of_mem_splitOn (h ▸ List.mem_cons_self)

theorem slash_not_mem_secondPiece (path : JString) : slash ∉ secondPiece path := by
  unfold secondPiece
  cases h : path.splitOn slash with
  | nil => simp
  | cons x xs =>
      cases xs with
      | nil => simp
      | cons y ys =>
          have hmem : y ∈ path.splitOn slash := by simp [h]
          exact sep_not_mem_of_mem_splitOn hmem

theorem splitOn_two (path : JString) :
    (firstPiece path ++ slash :: secondPiece path).splitOn slash =
      [firstPiece path, secondPiece path] := by
  rw [List.splitOn_append_cons_self_of_not_mem (slash_not_mem_firstPiece path),
    List.splitOn_eq_singleton (slash_not_mem_secondPiece path)]

/-- What is taken shows by its slashes which rule took it. -/
theorem pieceCount_taken (path : JString) :
    match rule path with
    | .whole => 3 ≤ pieceCount (taken path) ∧ 2 ≤ (components slash path).length
    | .two => ((components slash path).length = 1 ∧ 2 ≤ pieceCount (taken path)) ∨
        ((components slash path).length ≠ 1 ∧ pieceCount (taken path) = 2)
    | .first => pieceCount (taken path) = 1 := by
  unfold taken
  cases h : rule path with
  | whole =>
      obtain ⟨a, b, rest, ha, hb, hsplitOn, hrest⟩ := splitOn_of_condition1 (condition1_of_rule h)
      have hpos := List.length_pos_iff.mpr hrest
      refine ⟨?_, ?_⟩
      · show 3 ≤ (path.splitOn slash).length
        rw [hsplitOn]
        simp only [List.length_cons]
        omega
      · simp [components_of_splitOn ha hsplitOn, hb]
  | two =>
      obtain ⟨a, rest, _, _, _, hsplitOn, hrest⟩ := splitOn_of_condition2 (condition2_of_rule h)
      have hpos := List.length_pos_iff.mpr hrest
      by_cases hone : (components slash path).length = 1
      · left
        refine ⟨hone, ?_⟩
        simp only [hone, if_true]
        show 2 ≤ (path.splitOn slash).length
        rw [hsplitOn, List.length_cons]
        omega
      · right
        refine ⟨hone, ?_⟩
        simp only [hone, if_false]
        rw [pieceCount, splitOn_two]
        rfl
  | first =>
      show ((firstPiece path).splitOn slash).length = 1
      rw [List.splitOn_eq_singleton (slash_not_mem_firstPiece path)]
      rfl

/-- The spellings of one stored path that store one first path: the same rule
takes the same part of both. -/
def FirstPathAgrees (p q : JString) : Prop :=
  rule p = rule q ∧
    match rule p with
    | .whole => folding.toLowerCase p = folding.toLowerCase q
    | .two =>
        if (components slash p).length = 1 then folding.toLowerCase p = folding.toLowerCase q
        else secondPiece p = [] ↔ secondPiece q = []
    | .first => firstPiece p = [] ↔ firstPiece q = []

/-- Pieces that agree where both are there agree when both are missing or none is. -/
theorem toLowerCase_eq_iff {x y : JString}
    (h : x ≠ [] → y ≠ [] → folding.toLowerCase x = folding.toLowerCase y) :
    folding.toLowerCase x = folding.toLowerCase y ↔ (x = [] ↔ y = []) := by
  constructor
  · intro heq
    rw [← toLowerCase_eq_nil folding (s := x), heq, toLowerCase_eq_nil folding]
  · intro hiff
    by_cases hx : x = []
    · rw [hx, hiff.mp hx]
    · exact h hx (fun hy => hx (hiff.mpr hy))

variable {p q : JString}

/-- A first piece that is there is the first component. -/
theorem toLowerCase_firstPiece_eq
    (h : (components slash p).map folding.toLowerCase =
      (components slash q).map folding.toLowerCase)
    (hp : firstPiece p ≠ []) (hq : firstPiece q ≠ []) :
    folding.toLowerCase (firstPiece p) = folding.toLowerCase (firstPiece q) := by
  have hhead {path : JString} (hpath : firstPiece path ≠ []) :
      ∃ rest, components slash path = firstPiece path :: rest := by
    unfold firstPiece at hpath ⊢
    cases hs : path.splitOn slash with
    | nil => simp [hs] at hpath
    | cons x xs =>
        rw [hs] at hpath
        exact ⟨_, components_of_splitOn hpath hs⟩
  obtain ⟨rest, hcp⟩ := hhead hp
  obtain ⟨rest', hcq⟩ := hhead hq
  rw [hcp, hcq, List.map_cons, List.map_cons] at h
  exact (List.cons.inj h).1

/-- A second piece that is there, behind a component, is the second component. -/
theorem toLowerCase_secondPiece_eq
    (h : (components slash p).map folding.toLowerCase =
      (components slash q).map folding.toLowerCase)
    (hp : firstPiece p ≠ []) (hq : firstPiece q ≠ [])
    (hp' : secondPiece p ≠ []) (hq' : secondPiece q ≠ []) :
    folding.toLowerCase (secondPiece p) = folding.toLowerCase (secondPiece q) := by
  have htwo {path : JString} (hpath : firstPiece path ≠ []) (hpath' : secondPiece path ≠ []) :
      ∃ rest, components slash path = firstPiece path :: secondPiece path :: rest := by
    unfold firstPiece at hpath ⊢
    unfold secondPiece at hpath' ⊢
    match hs : path.splitOn slash with
    | [] => simp [hs] at hpath
    | [x] => simp [hs] at hpath'
    | x :: y :: rest =>
        rw [hs] at hpath hpath'
        refine ⟨rest.filter fun piece => !piece.isEmpty, ?_⟩
        rw [components_of_splitOn hpath hs]
        have hy : y ≠ [] := hpath'
        simp [hy]
  obtain ⟨rest, hcp⟩ := htwo hp hp'
  obtain ⟨rest', hcq⟩ := htwo hq hq'
  rw [hcp, hcq] at h
  simp only [List.map_cons, List.cons.injEq] at h
  exact h.2.1

/-- For one stored path, what is taken agrees up to case in the named cases. -/
theorem toLowerCase_taken_eq_iff
    (h : (components slash p).map folding.toLowerCase =
      (components slash q).map folding.toLowerCase) :
    folding.toLowerCase (taken p) = folding.toLowerCase (taken q) ↔
      FirstPathAgrees folding p q := by
  have hcount : (components slash p).length = (components slash q).length := by
    simpa using congrArg List.length h
  by_cases hrule : rule p = rule q
  · unfold FirstPathAgrees
    simp only [hrule, true_and]
    unfold taken
    rw [hrule]
    cases hq : rule q with
    | whole => rfl
    | two =>
        simp only [← hcount]
        split
        · rfl
        · have hfirst {path : JString} (hpath : rule path = .two) : firstPiece path ≠ [] := by
            obtain ⟨a, rest, ha, _, _, hsplitOn, _⟩ :=
              splitOn_of_condition2 (condition2_of_rule hpath)
            simpa [firstPiece, hsplitOn] using ha
          have hp1 := hfirst (hrule.trans hq)
          have hq1 := hfirst hq
          have hlower := toLowerCase_firstPiece_eq folding h hp1 hq1
          rw [← toLowerCase_eq_iff folding (toLowerCase_secondPiece_eq folding h hp1 hq1)]
          constructor
          · intro heq
            have hpieces := congrArg (fun s => s.splitOn slash) heq
            simp only [folding.splitOn, splitOn_two, List.map_cons, List.map_nil] at hpieces
            simpa [hlower] using hpieces
          · intro heq
            refine (splitOn_injective : List.splitOn slash _ = List.splitOn slash _ → _) ?_
            rw [folding.splitOn, folding.splitOn, splitOn_two, splitOn_two]
            simp [hlower, heq]
    | first => exact toLowerCase_eq_iff folding (toLowerCase_firstPiece_eq folding h)
  · -- different rules take different numbers of slashes
    constructor
    · intro heq
      have hp := pieceCount_taken p
      have hq := pieceCount_taken q
      have hpieces := congrArg pieceCount heq
      rw [pieceCount_toLowerCase, pieceCount_toLowerCase] at hpieces
      exfalso
      cases hrp : rule p <;> cases hrq : rule q <;> rw [hrp] at hp hrule <;>
        rw [hrq] at hq hrule <;> simp only at hp hq <;> first | exact hrule rfl | omega
    · intro h'
      obtain ⟨hsame, _⟩ := h'
      exact absurd hsame hrule

/-- **The first-path tokens of two spellings of one stored path agree for every
digest exactly when `getRootPath` takes the same part of both.** -/
theorem firstPath_tokens_agree_iff (hp : ∃ u ∈ p, u ≠ slash) (hq : ∃ u ∈ q, u ≠ slash)
    (h : (components slash p).map folding.toLowerCase =
      (components slash q).map folding.toLowerCase) (key : SaltSource) :
    (∀ H : HexDigest, firstPathToken folding H p key.text = firstPathToken folding H q key.text) ↔
      FirstPathAgrees folding p q := by
  have hstored {path : JString} (hpath : ∃ u ∈ path, u ≠ slash) (H : HexDigest) :
      firstPathToken folding H path key.text =
        .ok (token folding H (some (taken path)) key.text) := by
    unfold firstPathToken
    rw [getRootPath_eq (components_ne_nil hpath), ok_bind, encrypt_eq folding H _ key.fits]
  rw [← toLowerCase_taken_eq_iff folding h]
  constructor
  · intro htokens
    have hone := htokens (separating (folding.toLowerCase (taken p) ++ saltDigits key.text))
    rw [hstored hp, hstored hq, Except.ok.injEq, token_eq_iff] at hone
    exact (List.append_cancel_right ((separating_eq_iff _ _).mp hone)).symm
  · intro heq H
    rw [hstored hp, hstored hq, Except.ok.injEq, token_eq_iff]
    exact congrArg (fun text => H.md5Hex (text ++ saltDigits key.text)) heq

/-- The condition at the spellings `dcim/X/` and `dcim/x`. -/
theorem firstPath_tokens_agree_dcim :
    (∀ H : HexDigest, firstPathToken asciiFolding H (js "dcim/X/") (js "key") =
        firstPathToken asciiFolding H (js "dcim/x") (js "key")) ↔
      FirstPathAgrees asciiFolding (js "dcim/X/") (js "dcim/x") :=
  firstPath_tokens_agree_iff asciiFolding ⟨0x64, by decide, by decide⟩ ⟨0x64, by decide, by decide⟩
    (by decide) ⟨js "key", by decide⟩

/-- `a` and `/a` are one stored path with two first paths. -/
theorem firstPath_tokens_differ :
    ((∃ u ∈ js "a", u ≠ slash) ∧ ∃ u ∈ js "/a", u ≠ slash) ∧
      (components slash (js "a")).map asciiFolding.toLowerCase =
        (components slash (js "/a")).map asciiFolding.toLowerCase ∧
      firstPathToken asciiFolding (separating (js "a" ++ saltDigits (js "key"))) (js "a")
          (js "key") ≠
        firstPathToken asciiFolding (separating (js "a" ++ saltDigits (js "key")))
          (js "/a") (js "key") := by
  decide

end TrashClear
