import Mathlib.Data.Multiset.MapFold
import TrashClear.Completion
import TrashClear.SaltCache

/-!
# Reading a generated database

What a client finds in the five tables that a finished generation has left.  The numbers
and the package names are stored as they are, names and descriptions are decrypted with the
key of the generator, and of a path only its tokens can be read.

* `readsRecords_of_returns`: reading the tables gives the accepted records, no one more and
  none less.
* `genLocalData_records`: records that were written as lines of the four files come back.
-/

namespace TrashClear

open Java Blocks Fields Run Store Utf

/-! ## Lines and fields are texts -/

theorem isText_nil : IsText [] := ⟨[], rfl⟩

theorem isText_newString (bytes : List UInt8) : IsText (newString bytes) := ⟨_, rfl⟩

section Cut

variable {sep : UInt16} (hhigh : isHigh sep = false) (hlow : isLow sep = false)

include hhigh hlow

theorem isText_of_intercalate {pieces : List JString} (h : IsText ([sep].intercalate pieces)) :
    ∀ piece ∈ pieces, IsText piece := by
  induction pieces with
  | nil => exact fun piece hpiece => absurd hpiece List.not_mem_nil
  | cons first rest ih =>
      cases rest with
      | nil =>
          rw [List.intercalate_singleton] at h
          exact List.forall_mem_singleton.mpr h
      | cons second rest =>
          rw [List.intercalate_cons_cons, List.append_assoc, List.singleton_append] at h
          obtain ⟨hfirst, hrest⟩ := isText_cut hhigh hlow h
          exact List.forall_mem_cons.mpr ⟨hfirst, ih hrest⟩

/-- The pieces between separators. -/
theorem isText_split {us : JString} (h : IsText us) : ∀ piece ∈ split sep us, IsText piece := by
  have hpieces : ∀ piece ∈ us.splitOn sep, IsText piece := by
    apply isText_of_intercalate hhigh hlow
    rwa [List.intercalate_splitOn]
  unfold split
  by_cases hsep : sep ∈ us
  · rw [if_pos hsep]
    exact fun piece hpiece => hpieces piece ((List.rdropWhile_prefix _ _).subset hpiece)
  · rw [if_neg hsep]
    exact List.forall_mem_singleton.mpr h

end Cut

theorem isText_field {line : JString} (h : IsText line) (i : Nat) : IsText (field line i) := by
  unfold field
  rw [List.getD_eq_getElem?_getD]
  cases hi : (split semicolon line)[i]? with
  | none => exact isText_nil
  | some piece =>
      exact isText_split (by decide) (by decide) h piece (List.mem_of_getElem? hi)

/-- The lines of a text, with what has been read of the first. -/
theorem isText_linesFrom (line text : JString) (h : IsText (line ++ text)) :
    ∀ l ∈ linesFrom line text, IsText l := by
  have hnewline {line rest : JString} {u : UInt16} (hhigh : isHigh u = false)
      (hlow : isLow u = false) (h : IsText (line ++ u :: rest))
      (ih : IsText ([] ++ rest) → ∀ l ∈ linesFrom [] rest, IsText l) :
      ∀ l ∈ line :: linesFrom [] rest, IsText l := by
    obtain ⟨hline, hrest⟩ := isText_cut hhigh hlow h
    exact List.forall_mem_cons.mpr ⟨hline, ih hrest⟩
  fun_induction linesFrom line text with
  | case1 => exact fun l hl => absurd hl List.not_mem_nil
  | case2 line hline =>
      rw [List.append_nil] at h
      exact List.forall_mem_singleton.mpr h
  | case3 line rest ih => exact hnewline (by decide) (by decide) h ih
  | case4 line rest _ ih =>
      -- the carriage return and the line feed end one line
      obtain ⟨hline, hrest⟩ := isText_cut (u := 0x0D) (by decide) (by decide) h
      have hfeed : IsText ([] ++ 0x0A :: rest) := hrest
      obtain ⟨_, hrest⟩ := isText_cut (by decide) (by decide) hfeed
      exact List.forall_mem_cons.mpr ⟨hline, ih hrest⟩
  | case5 line _ v rest hv ih => exact hnewline (by decide) (by decide) h ih
  | case6 line _ ih => exact hnewline (by decide) (by decide) h ih
  | case7 line u rest hlf hcr ih =>
      apply ih
      rwa [List.append_assoc, List.singleton_append]

/-- The lines of a file are texts. -/
theorem isText_fileLines (content : List UInt8) : ∀ line ∈ fileLines content, IsText line :=
  isText_linesFrom [] _ (isText_newString content)

/-! ## The texts of the accepted records -/

theorem appName_of_parseRootPathLine {line : JString} {info : RootPathInfo}
    (h : parseRootPathLine line = .ok (some info)) : info.appName = field line 2 := by
  rw [parseRootPathLine_eq (not_skipped_of_parseRootPathLine h)] at h
  obtain ⟨_, _, h⟩ := bind_eq_ok.mp h
  obtain ⟨_, _, h⟩ := bind_eq_ok.mp h
  obtain ⟨_, _, h⟩ := bind_eq_ok.mp h
  split at h
  · obtain ⟨_, _, h⟩ := bind_eq_ok.mp h
    obtain ⟨_, _, h⟩ := bind_eq_ok.mp h
    obtain rfl := Option.some.inj (Except.ok.inj h)
    rfl
  · obtain ⟨_, _, h⟩ := bind_eq_ok.mp h
    obtain ⟨_, _, h⟩ := bind_eq_ok.mp h
    obtain rfl := Option.some.inj (Except.ok.inj h)
    rfl

/-- The record of an `id;text` line has the text of its second field. -/
theorem exists_of_parseIdText {α : Type} {build : Int32 → JString → α} {line : JString} {info : α}
    (h : parseIdText build line = .ok (some info)) : ∃ id, info = build id (field line 1) := by
  have hline : ¬ SkippedIdTextLine line := by
    intro hskipped
    rw [parseIdText_skipped build hskipped] at h
    cases h
  rw [parseIdText_eq build hline] at h
  obtain ⟨id, _, h⟩ := bind_eq_ok.mp h
  exact ⟨id, (Option.some.inj (Except.ok.inj h)).symm⟩

/-- What holds of the record of every text holds of all records of a file. -/
theorem forall_accepted {α : Type} {parse : JString → Except Throwable (Option α)} {P : α → Prop}
    (h : ∀ line info, IsText line → parse line = .ok (some info) → P info)
    (content : List UInt8) : ∀ info ∈ accepted parse (fileLines content), P info := by
  intro info hinfo
  obtain ⟨line, hline, hfound⟩ := List.mem_filterMap.mp hinfo
  exact h line info (isText_fileLines content line hline) (found_eq_some.mp hfound)

/-! ## Reading a row -/

/-- The number in a column. -/
def getInt (row : NamedRow) (column : String) : Option Int32 :=
  match row.lookup column with
  | some (.integer i) => some (Int32.ofInt i)
  | _ => none

/-- The text in a column. -/
def getText (row : NamedRow) (column : String) : Option JString :=
  match row.lookup column with
  | some (.text s) => some s
  | _ => none

variable (p : Platform)

/-- The text that a column keeps encrypted. -/
def getEncrypted (row : NamedRow) (column : String) : Option JString :=
  (getText row column).map fun text => desDecrypt p.jca text (desKey p)

/-- The tokens of a path column. -/
def getTokens (row : NamedRow) (column : String) : Option (List JString) :=
  (getText row column).map (components plus)

def readAppInfo (row : NamedRow) : Option AppInfo := do
  let appId ← getInt row apColumnAppId
  let appName ← getEncrypted p row apAppName
  return ⟨appId, appName⟩

def readTrashInfoDesc (row : NamedRow) : Option TrashInfoDesc := do
  let id ← getInt row descColumnDescId
  let text ← getEncrypted p row descColumnSupPathDescription
  return ⟨id, text⟩

def readPkgname (row : NamedRow) : Option (Int32 × JString) := do
  let appId ← getInt row pkgColumnAppId
  let pkg ← getText row pkgColumnAppPkgname
  return (appId, pkg)

/-- What the sub path table tells of a sub path. -/
structure StoredSubPath where
  appId : Int32
  subId : Int32
  tokens : List JString
  subPathDescId : Int32
  fileType : Int32
  clearType : Int32
  clearSuggestion : Int32
  clearResidualType : Int32

def readSubPath (row : NamedRow) : Option StoredSubPath := do
  let appId ← getInt row subColumnAppId
  let subId ← getInt row subColumnSubId
  let tokens ← getTokens row subColumnSubPath
  let subPathDescId ← getInt row subColumnSubPathDescription
  let fileType ← getInt row subColumnFileType
  let clearType ← getInt row subColumnClearType
  let clearSuggestion ← getInt row subColumnClearSuggestion
  let clearResidualType ← getInt row subColumnClearResidualType
  return ⟨appId, subId, tokens, subPathDescId, fileType, clearType, clearSuggestion,
    clearResidualType⟩

/-- What the root table tells of an application. -/
structure StoredRootPath where
  appId : Int32
  appName : JString
  tokens : List JString
  first : JString
  appType : Int32
  fileType : Int32
  clearType : Int32
  clearSuggestion : Int32

def readRootPath (row : NamedRow) : Option StoredRootPath := do
  let appId ← getInt row rootColumnAppId
  let appName ← getEncrypted p row rootColumnAppName
  let tokens ← getTokens row rootColumnRootPath
  let first ← getText row rootColumnRootFistPath
  let appType ← getInt row rootColumnAppType
  let fileType ← getInt row rootColumnFileType
  let clearType ← getInt row rootColumnClearType
  let clearSuggestion ← getInt row rootColumnClearSuggestion
  return ⟨appId, appName, tokens, first, appType, fileType, clearType, clearSuggestion⟩

/-! ## What is read of a record -/

/-- The token of a path component, or of what is taken as the first path. -/
def pathToken (piece : JString) : JString := token p.folding (md5 p) (some piece) (desKey p)

def SubPathInfo.stored (info : SubPathInfo) : StoredSubPath where
  appId := info.appId
  subId := info.subId
  tokens := (components slash info.subPath).map (pathToken p)
  subPathDescId := info.subPathDescId
  fileType := info.fileType
  clearType := info.clearType
  clearSuggestion := info.clearSuggestion
  clearResidualType := info.clearResidualType

def RootPathInfo.stored (info : RootPathInfo) : StoredRootPath where
  appId := info.appId
  appName := info.appName
  tokens := (components slash info.appRootPath).map (pathToken p)
  first := pathToken p (taken info.appRootPath)
  appType := info.appType
  fileType := info.fileType
  clearType := info.clearType
  clearSuggestion := info.clearSuggestion

/-- The cipher of the generator is undone by its own key. -/
theorem desDecrypt_encryptText {text : JString} (h : IsText text) (hfits : Encryptable text) :
    desDecrypt p.jca (encryptText p text) (desKey p) = text := by
  obtain ⟨cs, rfl⟩ := h
  have hpad := dvd_length_pad (n := 8) (by omega) (getBytes (encode16 cs))
  rw [encryptText, desEncrypt_eq p.jca hfits, encryptFinal,
    desDecrypt_hexDigits p.jca (desKey p) hpad, unpad_pad (by omega) (by omega)]
  exact newString_getBytes cs

theorem plus_not_mem_pathToken (piece : JString) : plus ∉ pathToken p piece := by
  intro hplus
  have hdigit := isLowerHex_token (some piece) (desKey p) plus hplus
  exact absurd hdigit (by decide)

theorem pathToken_ne_nil (piece : JString) : pathToken p piece ≠ [] := by
  intro hnil
  have hlength : (pathToken p piece).length = 48 :=
    length_token p.folding (md5 p) (some piece) (desKey p)
  rw [hnil] at hlength
  cases hlength

/-- Joined tokens are told apart by the `+` between them. -/
theorem components_joinTokens (pieces : List JString) :
    components plus (joinTokens (pieces.map (pathToken p))) = pieces.map (pathToken p) :=
  components_intercalate (List.forall_mem_map.mpr fun piece _ => plus_not_mem_pathToken p piece)
    (List.forall_mem_map.mpr fun piece _ => pathToken_ne_nil p piece)

theorem readAppInfo_row {info : AppInfo} {row : NamedRow} (htext : IsText info.appName)
    (hfits : Encryptable info.appName) (h : appInfoRow p info = .ok row) :
    readAppInfo p row = some info := by
  obtain rfl := Except.ok.inj h
  show some (AppInfo.mk (Int32.ofInt info.appId.toInt) (desDecrypt _ _ _)) = _
  rw [Int32.ofInt_toInt, desDecrypt_encryptText p htext hfits]

theorem readTrashInfoDesc_row {info : TrashInfoDesc} {row : NamedRow} (htext : IsText info.text)
    (hfits : Encryptable info.text) (h : descriptionRow p info = .ok row) :
    readTrashInfoDesc p row = some info := by
  obtain rfl := Except.ok.inj h
  show some (TrashInfoDesc.mk (Int32.ofInt info.id.toInt) (desDecrypt _ _ _)) = _
  rw [Int32.ofInt_toInt, desDecrypt_encryptText p htext hfits]

theorem readPkgname_row (appId : Int32) (pkg : JString) :
    readPkgname [(pkgColumnAppId, int appId), (pkgColumnAppPkgname, .text pkg)] =
      some (appId, pkg) := by
  show some (Int32.ofInt appId.toInt, pkg) = _
  rw [Int32.ofInt_toInt]

theorem readSubPath_row {info : SubPathInfo} {row : NamedRow} (h : subPathRow p info = .ok row) :
    readSubPath row = some (info.stored p) := by
  unfold subPathRow at h
  obtain ⟨subPath, hsubPath, h⟩ := bind_eq_ok.mp h
  obtain rfl := Except.ok.inj h
  rw [allPathMD5_eq] at hsubPath
  obtain rfl := Except.ok.inj hsubPath
  show some (StoredSubPath.mk (Int32.ofInt info.appId.toInt) (Int32.ofInt info.subId.toInt)
    (components plus (joinTokens ((components slash info.subPath).map (pathToken p))))
    (Int32.ofInt info.subPathDescId.toInt) (Int32.ofInt info.fileType.toInt)
    (Int32.ofInt info.clearType.toInt) (Int32.ofInt info.clearSuggestion.toInt)
    (Int32.ofInt info.clearResidualType.toInt)) = _
  simp only [Int32.ofInt_toInt, components_joinTokens]
  rfl

theorem readRootPath_row {info : RootPathInfo} {row : NamedRow} (htext : IsText info.appName)
    (hfits : Encryptable info.appName) (hpath : ∃ u ∈ info.appRootPath, u ≠ slash)
    (h : rootPathRow p info = .ok row) :
    readRootPath p row = some (info.stored p) := by
  unfold rootPathRow at h
  rw [allPathMD5_eq, firstPath_eq p hpath] at h
  obtain rfl := Except.ok.inj h
  show some (StoredRootPath.mk (Int32.ofInt info.appId.toInt) (desDecrypt _ _ _)
    (components plus (joinTokens ((components slash info.appRootPath).map (pathToken p))))
    (pathToken p (taken info.appRootPath)) (Int32.ofInt info.appType.toInt)
    (Int32.ofInt info.fileType.toInt) (Int32.ofInt info.clearType.toInt)
    (Int32.ofInt info.clearSuggestion.toInt)) = _
  rw [desDecrypt_encryptText p htext hfits]
  simp only [Int32.ofInt_toInt, components_joinTokens]
  rfl

/-! ## Reading the tables -/

/-- Every row of a table can be read, and the rows are read as these records. -/
def Reads {β : Type} (read : NamedRow → Option β) (table : String) (records : List β)
    (db : Database) : Prop :=
  (db.rows table).map (Multiset.map read) =
    some ((records.map some : List (Option β)) : Multiset (Option β))

theorem reads_of_generated {α β : Type} {parse : JString → Except Throwable (Option α)}
    {row : α → Except Throwable NamedRow} {table : String} {lines : List JString} {db : Database}
    {read : NamedRow → Option β} {stored : α → β}
    (hread : ∀ info ∈ accepted parse lines, ∀ r, row info = .ok r → read r = some (stored info))
    (h : Generated parse row table lines db) :
    Reads read table ((accepted parse lines).map stored) db := by
  obtain ⟨rows, hrows, htable⟩ := h
  unfold Reads
  rw [htable, Option.map_some, Multiset.map_coe, List.map_map,
    map_eq_of_forall_mapM (h := some ∘ stored) hread hrows]

theorem reads_packages {lines : List JString} {db : Database} (h : PackagesGenerated lines db) :
    Reads readPkgname tableAppPkgname ((accepted parseRootPathLine lines).flatMap fun info =>
      info.pkgs.map fun pkg => (info.appId, pkg)) db := by
  unfold PackagesGenerated at h
  unfold Reads
  rw [h, Option.map_some, Multiset.map_coe, List.map_flatMap, List.map_flatMap]
  simp only [appPkgnameRows, List.map_map, Function.comp_def, readPkgname_row]

/-- The five tables are read as the records of these four lists. -/
structure ReadsRecords (roots : List RootPathInfo) (subs : List SubPathInfo)
    (descriptions : List TrashInfoDesc) (apps : List AppInfo) (db : Database) : Prop where
  rootPaths : Reads (readRootPath p) tableRootPath (roots.map (RootPathInfo.stored p)) db
  packages : Reads readPkgname tableAppPkgname
    (roots.flatMap fun info => info.pkgs.map fun pkg => (info.appId, pkg)) db
  subPaths : Reads readSubPath tableSubPath (subs.map (SubPathInfo.stored p)) db
  subPathDescriptions : Reads (readTrashInfoDesc p) tableSubPathDescription descriptions db
  appInfos : Reads (readAppInfo p) tableAppInfo apps db

/-- The tables of every generator hold the rows of its file. -/
theorem done_of_returns {prior : Database} {files : LocalFiles} {c : Connection Database}
    (h : genLocalData p files (Connection.opened prior) = .ok () c) {g : Generator}
    {content : List UInt8} (hfile : g.file files = some ⟨content, none⟩) :
    g.Done p (fileLines content) c.durable := by
  obtain ⟨db, rfl, hdone⟩ := genLocalData_outcome.1 c h
  obtain ⟨lines, hlines, hg⟩ := hdone.filled g (by cases g <;> decide)
  rw [hfile] at hlines
  obtain rfl : fileLines content = lines := Option.some.inj hlines
  exact hg

/-- The encrypted names and descriptions of the accepted records fit twice in an array. -/
structure FitTexts (f : CompleteFiles) : Prop where
  roots : ∀ info ∈ accepted parseRootPathLine (fileLines f.rootPath), Encryptable info.appName
  descriptions : ∀ info ∈ accepted parseTrashInfoDesc (fileLines f.subPathDescription),
    Encryptable info.text
  apps : ∀ info ∈ accepted parseAppInfo (fileLines f.appName), Encryptable info.appName

/-- The root rows that a generation leaves are read as their records. -/
theorem readRootPath_of_returns {prior : Database} (f : CompleteFiles) {c : Connection Database}
    (h : genLocalData p f.toLocalFiles (Connection.opened prior) = .ok () c)
    (hfits : ∀ info ∈ accepted parseRootPathLine (fileLines f.rootPath),
      Encryptable info.appName) :
    ∀ info ∈ accepted parseRootPathLine (fileLines f.rootPath), ∀ row,
      rootPathRow p info = .ok row → readRootPath p row = some (info.stored p) := by
  have hname : ∀ info ∈ accepted parseRootPathLine (fileLines f.rootPath), IsText info.appName :=
    forall_accepted (fun line info hline hinfo =>
      appName_of_parseRootPathLine hinfo ▸ isText_field hline 2) f.rootPath
  have hpath : ∀ info ∈ accepted parseRootPathLine (fileLines f.rootPath),
      ∃ u ∈ info.appRootPath, u ≠ slash := by
    obtain ⟨lines, hlines, infos, hinfos, _, hslash⟩ := genLocalData_returns_iff.mp ⟨c, h⟩ .root
    obtain rfl : fileLines f.rootPath = lines := Option.some.inj hlines
    unfold accepted
    rwa [← eq_filterMap_of_collect hinfos]
  exact fun info hinfo row =>
    readRootPath_row p (hname info hinfo) (hfits info hinfo) (hpath info hinfo)

/-- **Reading the tables that a generation leaves** gives the accepted records. -/
theorem readsRecords_of_returns {prior : Database} (f : CompleteFiles) {c : Connection Database}
    (h : genLocalData p f.toLocalFiles (Connection.opened prior) = .ok () c) (hfits : FitTexts f) :
    ReadsRecords p (accepted parseRootPathLine (fileLines f.rootPath))
      (accepted parseSubPath (fileLines f.subPath))
      (accepted parseTrashInfoDesc (fileLines f.subPathDescription))
      (accepted parseAppInfo (fileLines f.appName)) c.durable := by
  have hdone {g : Generator} {content : List UInt8} := @done_of_returns p prior _ c h g content
  have htext : ∀ info ∈ accepted parseTrashInfoDesc (fileLines f.subPathDescription),
      IsText info.text := by
    apply forall_accepted
    intro line info hline hinfo
    obtain ⟨id, rfl⟩ := exists_of_parseIdText hinfo
    exact isText_field hline 1
  have happ : ∀ info ∈ accepted parseAppInfo (fileLines f.appName), IsText info.appName := by
    apply forall_accepted
    intro line info hline hinfo
    obtain ⟨id, rfl⟩ := exists_of_parseIdText hinfo
    exact isText_field hline 1
  have hdescriptions : Reads (readTrashInfoDesc p) tableSubPathDescription
      ((accepted parseTrashInfoDesc (fileLines f.subPathDescription)).map id) c.durable :=
    reads_of_generated (fun info hinfo row =>
        readTrashInfoDesc_row p (htext info hinfo) (hfits.descriptions info hinfo))
      (hdone (g := .description) rfl)
  have happs : Reads (readAppInfo p) tableAppInfo
      ((accepted parseAppInfo (fileLines f.appName)).map id) c.durable :=
    reads_of_generated (fun info hinfo row =>
        readAppInfo_row p (happ info hinfo) (hfits.apps info hinfo))
      (hdone (g := .app) rfl)
  rw [List.map_id] at hdescriptions happs
  exact {
    rootPaths := reads_of_generated (readRootPath_of_returns p f h hfits.roots)
      (hdone (g := .root) rfl).1
    packages := reads_packages (hdone (g := .root) rfl).2
    subPaths := reads_of_generated (fun info _ row => readSubPath_row p) (hdone (g := .sub) rfl)
    subPathDescriptions := hdescriptions
    appInfos := happs }

/-! ## Files of records -/

/-- A sub path record that the line format can carry.  Its three last numbers
are what the parser takes them for. -/
structure SubRecord where
  appId : Int32
  subId : Int32
  subPath : JString
  subPathDescId : Int32
  fileType : Int32
  clearSuggestion : Int32
  clearResidualType : Int32
  subPath_ne : subPath ≠ []
  subPath_sep : semicolon ∉ subPath

/-- `2;appId;subId;path;descId;fileType;clearSuggestion;clearResidualType` -/
def formatSubPath (r : SubRecord) : JString :=
  [semicolon].intercalate
    [js "2", intToString r.appId, intToString r.subId, r.subPath, intToString r.subPathDescId,
      intToString r.fileType, intToString r.clearSuggestion, intToString r.clearResidualType]

def SubRecord.info (r : SubRecord) : SubPathInfo where
  appId := r.appId
  subId := r.subId
  subPath := r.subPath
  subPathDescId := r.subPathDescId
  fileType := r.fileType
  clearType := 0
  clearSuggestion := r.clearSuggestion
  clearResidualType := r.clearResidualType

/-- Decoding a formatted sub path record gives its meaning. -/
theorem parseSubPath_formatSubPath (r : SubRecord) :
    parseSubPath (formatSubPath r) = .ok (some r.info) := by
  have htag : semicolon ∉ js "2" := by decide
  have hsplit : split semicolon (formatSubPath r) =
      [js "2", intToString r.appId, intToString r.subId, r.subPath, intToString r.subPathDescId,
        intToString r.fileType, intToString r.clearSuggestion,
        intToString r.clearResidualType] := by
    apply split_intercalate (by simp)
    · simp [htag, semicolon_not_mem_intToString, r.subPath_sep]
    · simpa using intToString_ne_nil r.clearResidualType
  have hcomment : ¬ [hash] <+: formatSubPath r := by
    intro hprefix
    obtain ⟨rest, hrest⟩ := hprefix
    have hhead : some hash = some 0x32 := congrArg List.head? hrest
    exact absurd hhead (by decide)
  have hne : formatSubPath r ≠ [] := by simp [formatSubPath]
  have hline : ¬ SkippedSubLine (formatSubPath r) := by
    simp [SkippedSubLine, field, hsplit, hne, hcomment, r.subPath_ne, intToString_ne_nil]
  rw [parseSubPath_eq hline]
  simp only [field, hsplit, List.getD_cons_succ, List.getD_cons_zero, parseInt_intToString,
    ok_bind]
  rfl

/-- The records of four files. -/
structure LocalRecords where
  roots : List RootRecord
  subs : List SubRecord
  descriptions : List (Int32 × LineText)
  apps : List (Int32 × LineText)

namespace LocalRecords

variable (r : LocalRecords)

def lines : Generator → List JString
  | .root => r.roots.map formatRootPathLine
  | .sub => r.subs.map formatSubPath
  | .description => r.descriptions.map fun entry => formatIdText entry.1 entry.2
  | .app => r.apps.map fun entry => formatIdText entry.1 entry.2

/-- Every record is a text on one line. -/
def Writable : Prop := ∀ g, ∀ line ∈ r.lines g, IsText line ∧ IsLine line

/-- The encrypted names and descriptions fit twice in an array. -/
structure Fits : Prop where
  roots : ∀ root ∈ r.roots, Encryptable root.appName
  descriptions : ∀ entry ∈ r.descriptions, Encryptable entry.2.text
  apps : ∀ entry ∈ r.apps, Encryptable entry.2.text

/-- A terminated line for each. -/
def writeLines (lines : List JString) : List UInt8 :=
  getBytes (lines.flatMap fun line => line ++ [0x0A])

def files : CompleteFiles where
  rootPath := writeLines (r.lines .root)
  subPath := writeLines (r.lines .sub)
  subPathDescription := writeLines (r.lines .description)
  appName := writeLines (r.lines .app)

/-- Terminated texts are a text. -/
theorem isText_flatMap_line {lines : List JString} (h : ∀ line ∈ lines, IsText line) :
    IsText (lines.flatMap fun line => line ++ [0x0A]) := by
  induction lines with
  | nil => exact isText_nil
  | cons line lines ih =>
      obtain ⟨hline, hlines⟩ := List.forall_mem_cons.mp h
      rw [List.flatMap_cons]
      exact isText_append (isText_append hline (isText_encode16 ['\n'])) (ih hlines)

theorem fileLines_writeLines {lines : List JString}
    (h : ∀ line ∈ lines, IsText line ∧ IsLine line) : fileLines (writeLines lines) = lines := by
  obtain ⟨cs, hcs⟩ := isText_flatMap_line fun line hline => (h line hline).1
  unfold fileLines writeLines
  rw [hcs, newString_getBytes, ← hcs]
  exact readLines_flatMap fun line hline => (h line hline).2

variable {r} in
theorem getLines_file (h : r.Writable) (g : Generator) :
    getLines (g.file r.files.toLocalFiles) = some (r.lines g) := by
  have hlines := fileLines_writeLines (h g)
  cases g <;> exact congrArg some hlines

end LocalRecords

/-- A list of formatted records is accepted whole. -/
theorem accepted_map {α β : Type} {parse : JString → Except Throwable (Option β)}
    {format : α → JString} {info : α → β}
    (h : ∀ record, parse (format record) = .ok (some (info record))) (records : List α) :
    accepted parse (records.map format) = records.map info :=
  (eq_filterMap_of_collect (collect_map_eq_ok h records)).symm

section Written

variable {r : LocalRecords} (h : r.Writable)

include h

theorem accepted_roots :
    accepted parseRootPathLine (fileLines r.files.rootPath) = r.roots.map RootRecord.info :=
  (congrArg _ (LocalRecords.fileLines_writeLines (h .root))).trans
    (accepted_map parseRootPathLine_formatRootPathLine r.roots)

theorem accepted_subs :
    accepted parseSubPath (fileLines r.files.subPath) = r.subs.map SubRecord.info :=
  (congrArg _ (LocalRecords.fileLines_writeLines (h .sub))).trans
    (accepted_map parseSubPath_formatSubPath r.subs)

theorem accepted_descriptions :
    accepted parseTrashInfoDesc (fileLines r.files.subPathDescription) =
      r.descriptions.map fun entry => ⟨entry.1, entry.2.text⟩ :=
  (congrArg _ (LocalRecords.fileLines_writeLines (h .description))).trans
    (accepted_map (fun entry : Int32 × LineText =>
      parseIdText_formatIdText TrashInfoDesc.mk entry.1 entry.2) r.descriptions)

theorem accepted_apps :
    accepted parseAppInfo (fileLines r.files.appName) =
      r.apps.map fun entry => ⟨entry.1, entry.2.text⟩ :=
  (congrArg _ (LocalRecords.fileLines_writeLines (h .app))).trans
    (accepted_map (fun entry : Int32 × LineText =>
      parseIdText_formatIdText AppInfo.mk entry.1 entry.2) r.apps)

/-- What fits in the records fits in their files. -/
theorem fitTexts (hfits : r.Fits) : FitTexts r.files where
  roots := by
    rw [accepted_roots h]
    exact List.forall_mem_map.mpr hfits.roots
  descriptions := by
    rw [accepted_descriptions h]
    exact List.forall_mem_map.mpr hfits.descriptions
  apps := by
    rw [accepted_apps h]
    exact List.forall_mem_map.mpr hfits.apps

end Written

/-- Formatted root records are readable when their ids differ and no path is made
of slashes alone. -/
theorem readable_root_iff (roots : List RootRecord) :
    Generator.root.Readable (roots.map formatRootPathLine) ↔
      (roots.map RootRecord.appId).Nodup ∧ ∀ root ∈ roots, ∃ u ∈ root.appRootPath, u ≠ slash := by
  have hroots := collect_map_eq_ok parseRootPathLine_formatRootPathLine roots
  have hids : (roots.map RootRecord.info).map RootPathInfo.appId =
      roots.map RootRecord.appId := List.map_map
  constructor
  · intro h
    obtain ⟨infos, hinfos, hnodup, hslash⟩ := h
    obtain rfl := Except.ok.inj (hroots.symm.trans hinfos)
    exact ⟨hids ▸ hnodup, fun root hroot => hslash _ (List.mem_map_of_mem hroot)⟩
  · intro h
    exact ⟨_, hroots, hids ▸ h.1, List.forall_mem_map.mpr h.2⟩

/-- Formatted descriptions are readable when their ids differ. -/
theorem readable_description_iff (entries : List (Int32 × LineText)) :
    Generator.description.Readable (entries.map fun entry => formatIdText entry.1 entry.2) ↔
      (entries.map Prod.fst).Nodup := by
  have hentries := collect_map_eq_ok (fun entry : Int32 × LineText =>
    parseIdText_formatIdText TrashInfoDesc.mk entry.1 entry.2) entries
  have hids : (entries.map fun entry => TrashInfoDesc.mk entry.1 entry.2.text).map
      TrashInfoDesc.id = entries.map Prod.fst := List.map_map
  constructor
  · intro h
    obtain ⟨infos, hinfos, hnodup⟩ := h
    obtain rfl := Except.ok.inj (hentries.symm.trans hinfos)
    exact hids ▸ hnodup
  · intro h
    exact ⟨_, hentries, hids ▸ h⟩

/-- A generation from written records returns exactly when the tables can take them. -/
theorem returns_records_iff {r : LocalRecords} (hwritable : r.Writable) (prior : Database) :
    (∃ c, genLocalData p r.files.toLocalFiles (Connection.opened prior) = .ok () c) ↔
      (r.roots.map RootRecord.appId).Nodup ∧ (r.descriptions.map Prod.fst).Nodup ∧
        ∀ root ∈ r.roots, ∃ u ∈ root.appRootPath, u ≠ slash := by
  have hlines (g : Generator) := LocalRecords.getLines_file hwritable g
  rw [genLocalData_returns_iff]
  constructor
  · intro h
    have hreadable (g : Generator) : g.Readable (r.lines g) := by
      obtain ⟨lines, hfile, hg⟩ := h g
      obtain rfl := Option.some.inj ((hlines g).symm.trans hfile)
      exact hg
    obtain ⟨hids, hslash⟩ := (readable_root_iff r.roots).mp (hreadable .root)
    exact ⟨hids, (readable_description_iff r.descriptions).mp (hreadable .description), hslash⟩
  · intro h g
    obtain ⟨hids, hdescIds, hslash⟩ := h
    refine ⟨_, hlines g, ?_⟩
    cases g with
    | root => exact (readable_root_iff r.roots).mpr ⟨hids, hslash⟩
    | sub => exact ⟨_, collect_map_eq_ok parseSubPath_formatSubPath r.subs⟩
    | description => exact (readable_description_iff r.descriptions).mpr hdescIds
    | app =>
        exact ⟨_, collect_map_eq_ok (fun entry : Int32 × LineText =>
          parseIdText_formatIdText AppInfo.mk entry.1 entry.2) r.apps⟩

/-- **Records that are written, generated and read back are the same records.**
The generation returns exactly when the application ids of the roots differ, the
ids of the descriptions do too, and every root path has a character other than
`/`; what is read then are all records and no others, as the parser takes them: the
clear type of a root record of application type 4 is 2. -/
theorem genLocalData_records {r : LocalRecords} (hwritable : r.Writable) (hfits : r.Fits)
    (prior : Database) :
    ((∃ c, genLocalData p r.files.toLocalFiles (Connection.opened prior) = .ok () c) ↔
        (r.roots.map RootRecord.appId).Nodup ∧ (r.descriptions.map Prod.fst).Nodup ∧
          ∀ root ∈ r.roots, ∃ u ∈ root.appRootPath, u ≠ slash) ∧
      ∀ c, genLocalData p r.files.toLocalFiles (Connection.opened prior) = .ok () c →
        ReadsRecords p (r.roots.map RootRecord.info) (r.subs.map SubRecord.info)
          (r.descriptions.map fun entry => ⟨entry.1, entry.2.text⟩)
          (r.apps.map fun entry => ⟨entry.1, entry.2.text⟩) c.durable := by
  refine ⟨returns_records_iff p hwritable prior, fun c hc => ?_⟩
  have hread := readsRecords_of_returns p r.files hc (fitTexts hwritable hfits)
  rwa [accepted_roots hwritable, accepted_subs hwritable, accepted_descriptions hwritable,
    accepted_apps hwritable] at hread

/-- One record of each kind. -/
def sampleRecords : LocalRecords where
  roots := [⟨5, js "n", js "p", [js "x", js "y"], 2, 7, 0, 0, by decide, by decide, by decide,
    by decide, by decide, by decide, by decide⟩]
  subs := [⟨5, 1, js "q", 3, 7, 0, 0, by decide, by decide⟩]
  descriptions := [(3, ⟨js "t", by decide, by decide⟩)]
  apps := [(5, ⟨js "n", by decide, by decide⟩)]

theorem writable_sampleRecords : sampleRecords.Writable := by
  intro g
  cases g with
  | root =>
      exact List.forall_mem_singleton.mpr
        ⟨⟨"1;5;n;p;x,y;2;7;0;0".toList, by decide +kernel⟩, by decide +kernel⟩
  | sub =>
      exact List.forall_mem_singleton.mpr
        ⟨⟨"2;5;1;q;3;7;0;0".toList, by decide +kernel⟩, by decide +kernel⟩
  | description =>
      exact List.forall_mem_singleton.mpr ⟨⟨"3;t".toList, by decide +kernel⟩, by decide +kernel⟩
  | app =>
      exact List.forall_mem_singleton.mpr ⟨⟨"5;n".toList, by decide +kernel⟩, by decide +kernel⟩

theorem fits_sampleRecords : sampleRecords.Fits where
  roots := by decide
  descriptions := by decide
  apps := by decide

theorem returns_sampleRecords (prior : Database) :
    ∃ c, genLocalData p sampleRecords.files.toLocalFiles (Connection.opened prior) = .ok () c := by
  have hslash : ∃ u ∈ js "p", u ≠ slash := ⟨0x70, by decide, by decide⟩
  exact (returns_records_iff p writable_sampleRecords prior).mpr
    ⟨by decide, by decide, List.forall_mem_singleton.mpr hslash⟩

/-- The record of each kind is read back. -/
theorem genLocalData_records_sample :
    ∃ c, genLocalData plainPlatform sampleRecords.files.toLocalFiles
        (Connection.opened fun _ => none) = .ok () c ∧
      ReadsRecords plainPlatform (sampleRecords.roots.map RootRecord.info)
        (sampleRecords.subs.map SubRecord.info) [⟨3, js "t"⟩] [⟨5, js "n"⟩] c.durable := by
  obtain ⟨c, hc⟩ := returns_sampleRecords plainPlatform fun _ => none
  exact ⟨c, hc,
    (genLocalData_records plainPlatform writable_sampleRecords fits_sampleRecords _).2 c hc⟩

end TrashClear
