import Mathlib.Data.Multiset.Filter
import TrashClear.PathLaws
import TrashClear.ReadBack

/-!
# Questions about stored paths

The tables hold no path, only its tokens.  Whoever has the tokens of a directory can
still ask for everything below it: a stored path that is the stored directory, or begins
with it and a `+`.

* `below_iff`: this is true of two paths exactly when the components of one begin with
  those of the other, up to case.
* `genLocalData_below`: so the rows that such a query finds in a generated database are
  those of the accepted records below the directory.
-/

namespace TrashClear

open Java Fields Run Store

/-- The stored path `text` is below the stored directory. -/
def Below (directory text : JString) : Prop :=
  directory = [] ∨ text = directory ∨ directory ++ [plus] <+: text

instance (directory text : JString) : Decidable (Below directory text) := by
  unfold Below
  infer_instance

variable (p : Platform)

/-- A path in the form that its components are compared in. -/
def lowered (path : JString) : List JString := (components slash path).map p.folding.toLowerCase

/-- What is stored of a path. -/
def storedPath (path : JString) : JString :=
  joinTokens ((components slash path).map (pathToken p))

/-- The digests of the components of these paths differ where the components do. -/
def Distinguished (paths : List JString) : Prop :=
  Separates (md5 p) (paths.flatMap (saltedComponents p.folding (desKey p)))

instance (paths : List JString) : Decidable (Distinguished p paths) := by
  unfold Distinguished
  infer_instance

/-- Comparing stored paths compares lists of tokens. -/
theorem below_storedPath_iff (directory path : JString) :
    Below (storedPath p directory) (storedPath p path) ↔
      (components slash directory).map (pathToken p) <+:
        (components slash path).map (pathToken p) := by
  have hread (path : JString) : components plus (storedPath p path) =
      (components slash path).map (pathToken p) := components_joinTokens p (components slash path)
  constructor
  · intro h
    rw [← hread directory, ← hread path]
    rcases h with hnil | heq | ⟨rest, hrest⟩
    · rw [hnil]
      exact List.nil_prefix
    · exact heq ▸ List.prefix_refl _
    · rw [← hrest, List.append_assoc, List.singleton_append, components_append]
      exact List.prefix_append _ _
  · intro h
    obtain ⟨more, hmore⟩ := h
    unfold storedPath
    rw [← hmore]
    by_cases hnil : (components slash directory).map (pathToken p) = []
    · rw [hnil]
      exact Or.inl rfl
    · by_cases hend : more = []
      · rw [hend, List.append_nil]
        exact Or.inr (Or.inl rfl)
      · refine Or.inr (Or.inr ⟨joinTokens more, ?_⟩)
        unfold joinTokens
        rw [intercalate_append plus hnil hend, List.append_assoc, List.singleton_append]

/-- **A stored path is below a stored directory exactly when the path is below the
directory**, up to case and as far as the digest can tell. -/
theorem below_iff {paths : List JString} (h : Distinguished p paths) {directory path : JString}
    (hdirectory : directory ∈ paths) (hpath : path ∈ paths) :
    Below (storedPath p directory) (storedPath p path) ↔
      lowered p directory <+: lowered p path := by
  rw [below_storedPath_iff]
  constructor
  · intro hprefix
    have htake := List.prefix_iff_eq_take.mp hprefix
    rw [← List.map_take, List.length_map] at htake
    have hsame := map_token_injective p.folding (md5 p) (fun a ha b hb htoken => ?_) htake
    · unfold lowered
      rw [hsame, List.map_take]
      exact List.take_prefix _ _
    · have hdigest := (token_eq_iff p.folding (md5 p) (some a) (some b) (desKey p)).mp htoken
      have hsalted := h _ (List.mem_flatMap.mpr ⟨_, hdirectory, List.mem_map_of_mem ha⟩) _
        (List.mem_flatMap.mpr ⟨_, hpath, List.mem_map_of_mem (List.mem_of_mem_take hb)⟩) hdigest
      exact List.append_cancel_right hsalted
  · intro hprefix
    have htoken : pathToken p = (fun l => Weave.weave ((md5 p).md5Hex
        (l ++ saltDigits (desKey p))) (saltDigits (desKey p))) ∘
          p.folding.toLowerCase := rfl
    rw [htoken, ← List.map_map, ← List.map_map]
    exact hprefix.map _

/-! ## Asking a generated database -/

/-- The stored path of a row is below the stored directory. -/
def RowBelow (column : String) (directory : JString) (row : NamedRow) : Bool :=
  match getText row column with
  | some text => decide (Below directory text)
  | none => false

/-- The rows that a query finds, as they are read. -/
def find {β : Type} (read : NamedRow → Option β) (table column : String) (directory : JString)
    (db : Database) : Option (Multiset (Option β)) :=
  (db.rows table).map fun rows =>
    Multiset.map read (Multiset.filter (fun row => RowBelow column directory row) rows)

/-- The path of a record is below the directory. -/
def IsBelow (directory path : JString) : Bool :=
  decide (lowered p directory <+: lowered p path)

/-- A query finds the rows of the accepted records below the directory, when the rows
are read as these records and keep their paths. -/
theorem find_of_generated {α β : Type} {parse : JString → Except Throwable (Option α)}
    {row : α → Except Throwable NamedRow} {table column : String} {lines : List JString}
    {db : Database} {read : NamedRow → Option β} {stored : α → β} {path : α → JString}
    {directory : JString}
    (hread : ∀ info ∈ accepted parse lines, ∀ r, row info = .ok r → read r = some (stored info))
    (htext : ∀ info r, row info = .ok r → getText r column = some (storedPath p (path info)))
    (hdistinguished : Distinguished p (directory :: (accepted parse lines).map path))
    (h : Generated parse row table lines db) :
    find read table column (storedPath p directory) db =
      some ((((accepted parse lines).filter fun info => IsBelow p directory (path info)).map
        (some ∘ stored) : List (Option β)) : Multiset (Option β)) := by
  obtain ⟨rows, hrows, htable⟩ := h
  have hboth : ∀ info ∈ accepted parse lines, ∀ r, row info = .ok r →
      read r = some (stored info) ∧
        RowBelow column (storedPath p directory) r = IsBelow p directory (path info) := by
    intro info hinfo r hr
    refine ⟨hread info hinfo r hr, ?_⟩
    unfold RowBelow IsBelow
    rw [htext info r hr]
    exact decide_eq_decide.mpr (below_iff p hdistinguished List.mem_cons_self
      (List.mem_cons_of_mem _ (List.mem_map_of_mem hinfo)))
  have hfiltered := map_filter_eq_of_forall_mapM (h := some ∘ stored) hboth hrows
  unfold find
  rw [htable, Option.map_some, Multiset.filter_coe, Multiset.map_coe, ← hfiltered]
  simp

theorem getText_rootPathRow (info : RootPathInfo) (r : NamedRow)
    (h : rootPathRow p info = .ok r) :
    getText r rootColumnRootPath = some (storedPath p info.appRootPath) := by
  unfold rootPathRow at h
  obtain ⟨rootPath, hrootPath, h⟩ := bind_eq_ok.mp h
  obtain ⟨first, _, h⟩ := bind_eq_ok.mp h
  obtain rfl := Except.ok.inj h
  rw [allPathMD5_eq] at hrootPath
  exact congrArg some (Except.ok.inj hrootPath).symm

theorem getText_subPathRow (info : SubPathInfo) (r : NamedRow) (h : subPathRow p info = .ok r) :
    getText r subColumnSubPath = some (storedPath p info.subPath) := by
  unfold subPathRow at h
  obtain ⟨subPath, hsubPath, h⟩ := bind_eq_ok.mp h
  obtain rfl := Except.ok.inj h
  rw [allPathMD5_eq] at hsubPath
  exact congrArg some (Except.ok.inj hsubPath).symm

/-- **A query for a directory finds the accepted records below it**, in the root table and
in the sub path table of a generated database, and nothing else. -/
theorem genLocalData_below (f : CompleteFiles) {prior : Database} {c : Connection Database}
    (h : genLocalData p f.toLocalFiles (Connection.opened prior) = .ok () c)
    (hfits : ∀ info ∈ accepted parseRootPathLine (fileLines f.rootPath), Encryptable info.appName)
    {directory : JString} (hroots : Distinguished p (directory ::
      (accepted parseRootPathLine (fileLines f.rootPath)).map RootPathInfo.appRootPath))
    (hsubs : Distinguished p (directory ::
      (accepted parseSubPath (fileLines f.subPath)).map SubPathInfo.subPath)) :
    ∃ stored, allPathMD5 p directory = .ok stored ∧
      find (readRootPath p) tableRootPath rootColumnRootPath stored c.durable =
        some ((((accepted parseRootPathLine (fileLines f.rootPath)).filter fun info =>
          IsBelow p directory info.appRootPath).map (some ∘ RootPathInfo.stored p) :
            List (Option StoredRootPath)) : Multiset (Option StoredRootPath)) ∧
      find readSubPath tableSubPath subColumnSubPath stored c.durable =
        some ((((accepted parseSubPath (fileLines f.subPath)).filter fun info =>
          IsBelow p directory info.subPath).map (some ∘ SubPathInfo.stored p) :
            List (Option StoredSubPath)) : Multiset (Option StoredSubPath)) := by
  have hdone {g : Generator} {content : List UInt8} := @done_of_returns p prior _ c h g content
  refine ⟨storedPath p directory, allPathMD5_eq p directory, ?_, ?_⟩
  · exact find_of_generated p (readRootPath_of_returns p f h hfits) (getText_rootPathRow p) hroots
      (hdone (g := .root) rfl).1
  · exact find_of_generated p (fun info _ row => readSubPath_row p) (getText_subPathRow p) hsubs
      (hdone (g := .sub) rfl)

/-- A platform whose digest tells texts that begin with `p` from the others. -/
def samplePlatform : Platform :=
  { plainPlatform with
    jca := { plainProvider with
      md5 := fun bytes => List.Vector.replicate 16 (if bytes.headD 0 = 0x70 then 0 else 1) } }

/-- The directory `P/` and the records with the root path `p` and the sub path `q`. -/
theorem genLocalData_below_sample :
    ∃ c stored, genLocalData samplePlatform sampleRecords.files.toLocalFiles
        (Connection.opened fun _ => none) = .ok () c ∧
      allPathMD5 samplePlatform (js "P/") = .ok stored ∧
      find (readRootPath samplePlatform) tableRootPath rootColumnRootPath stored c.durable =
        some ([some ((RootPathInfo.mk 5 (js "n") (js "p") [js "x", js "y"] 2 7 0 0).stored
          samplePlatform)] : List (Option StoredRootPath)) ∧
      find readSubPath tableSubPath subColumnSubPath stored c.durable =
        some ([] : List (Option StoredSubPath)) := by
  obtain ⟨c, hc⟩ := returns_sampleRecords samplePlatform fun _ => none
  have hroots := accepted_roots writable_sampleRecords
  have hsubs := accepted_subs writable_sampleRecords
  have hrootsApart : Distinguished samplePlatform (js "P/" :: (accepted parseRootPathLine
      (fileLines sampleRecords.files.rootPath)).map RootPathInfo.appRootPath) := by
    rw [hroots]
    decide +kernel
  have hsubsApart : Distinguished samplePlatform (js "P/" :: (accepted parseSubPath
      (fileLines sampleRecords.files.subPath)).map SubPathInfo.subPath) := by
    rw [hsubs]
    decide +kernel
  obtain ⟨stored, hstored, hfoundRoots, hfoundSubs⟩ :=
    genLocalData_below samplePlatform sampleRecords.files hc
      (fitTexts writable_sampleRecords fits_sampleRecords).roots hrootsApart hsubsApart
  rw [hroots] at hfoundRoots
  rw [hsubs] at hfoundSubs
  exact ⟨c, stored, hc, hstored, hfoundRoots, hfoundSubs⟩

end TrashClear
