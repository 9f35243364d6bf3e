import TrashClear.Java.Text
import TrashClear.Library.Run

/-!
# The line parsers of the four local files

`parseRootPathLine`, `parseSubPath`, `parseTrashInfoDesc` and `parseAppInfo`
read one `;`-separated line into a record.  A line with too few fields, or with
an empty name, path or text, is answered by null (`none` here); a field that is
not a number raises `NumberFormatException`.

* `parseRootPathLine_formatRootPathLine`, `parseIdText_formatIdText` and
  `decode_documented_format` are the round trips of the documented formats.
* `shared_fields_agree_iff` compares the two parsers that share the fields "file
  type, clear type, clear suggestion": `parseSubPath` stores the last two one
  record field further and never assigns `clearType`.
* `tagsKept_iff`: neither parser looks at the tag that tells their lines apart.
-/

namespace TrashClear

open Java Fields Run

structure RootPathInfo where
  appId : Int32
  appName : JString
  appRootPath : JString
  pkgs : List JString
  appType : Int32
  fileType : Int32
  clearType : Int32
  clearSuggestion : Int32
  deriving DecidableEq

structure SubPathInfo where
  appId : Int32
  subId : Int32
  subPath : JString
  subPathDescId : Int32
  fileType : Int32
  clearType : Int32
  clearSuggestion : Int32
  clearResidualType : Int32
  deriving DecidableEq

structure TrashInfoDesc where
  id : Int32
  text : JString
  deriving DecidableEq

structure AppInfo where
  appId : Int32
  appName : JString
  deriving DecidableEq

def semicolon : UInt16 := 0x3B

def comma : UInt16 := 0x2C

def hash : UInt16 := 0x23

/-- `TextUtils.isEmpty` of a string that is there. -/
def TextUtils.isEmpty (s : JString) : Bool := s.isEmpty

/-- Whether any of the strings is empty. -/
def isEmpty (params : List JString) : Bool := params.any TextUtils.isEmpty

def parseRootPathLine (line : JString) : Except Throwable (Option RootPathInfo) := do
  let params := split semicolon line
  if params.length < 9 then
    return none
  if isEmpty [← elem params 2, ← elem params 3] then
    return none
  let appId ← parseInt (← elem params 1)
  let appName ← elem params 2
  let appRootPath ← elem params 3
  let pkgs := split comma (← elem params 4)
  let appType ← parseInt (← elem params 5)
  let fileType ← parseInt (← elem params 6)
  -- advertising data counts as type 2, and the clear type field is not read
  let clearType ← if appType = 4 then pure 2 else do parseInt (← elem params 7)
  let clearSuggestion ← parseInt (← elem params 8)
  return some
    { appId, appName, appRootPath, pkgs, appType, fileType, clearType, clearSuggestion }

def parseSubPath (line : JString) : Except Throwable (Option SubPathInfo) := do
  if TextUtils.isEmpty line || [hash].isPrefixOf line then
    return none
  let params := split semicolon line
  if params.length < 8 then
    return none
  if isEmpty [← elem params 3, ← elem params 4] then
    return none
  let appId ← parseInt (← elem params 1)
  let subId ← parseInt (← elem params 2)
  let subPath ← elem params 3
  let subPathDescId ← parseInt (← elem params 4)
  let fileType ← parseInt (← elem params 5)
  let clearSuggestion ← parseInt (← elem params 6)
  let clearResidualType ← parseInt (← elem params 7)
  -- `clearType` keeps the default of a fresh object
  return some
    { appId, subId, subPath, subPathDescId, fileType, clearType := 0, clearSuggestion,
      clearResidualType }

/-- The common body of the two parsers of `id;text` lines. -/
def parseIdText {α : Type} (build : Int32 → JString → α) (line : JString) :
    Except Throwable (Option α) := do
  if TextUtils.isEmpty line then
    return none
  let params := split semicolon line
  if params.length < 2 then
    return none
  if isEmpty [← elem params 1] then
    return none
  let id ← parseInt (← elem params 0)
  let text ← elem params 1
  return some (build id text)

def parseTrashInfoDesc (line : JString) : Except Throwable (Option TrashInfoDesc) :=
  parseIdText TrashInfoDesc.mk line

def parseAppInfo (line : JString) : Except Throwable (Option AppInfo) :=
  parseIdText AppInfo.mk line

/-! ## Which lines are answered by null

These are the tests the parsers make before they read a number. -/

/-- Field `i` of a line, empty when the line is too short. -/
def field (line : JString) (i : Nat) : JString := (split semicolon line).getD i []

def SkippedRootLine (line : JString) : Prop :=
  (split semicolon line).length < 9 ∨ field line 2 = [] ∨ field line 3 = []

def SkippedSubLine (line : JString) : Prop :=
  line = [] ∨ [hash] <+: line ∨ (split semicolon line).length < 8 ∨
    field line 3 = [] ∨ field line 4 = []

def SkippedIdTextLine (line : JString) : Prop :=
  line = [] ∨ (split semicolon line).length < 2 ∨ field line 1 = []

/-- Reading a field that the length test has secured. -/
theorem elem_split {line : JString} {i n : Nat} (hlen : ¬ (split semicolon line).length < n)
    (hi : i < n) : elem (split semicolon line) i = .ok (field line i) := by
  have hlt : i < (split semicolon line).length := by omega
  rw [elem_of_lt hlt]
  simp [field, hlt]

/-- A root line that passes the tests, with the reads of its fields resolved. -/
theorem parseRootPathLine_eq {line : JString} (h : ¬ SkippedRootLine line) :
    parseRootPathLine line = (do
      let appId ← parseInt (field line 1)
      let appType ← parseInt (field line 5)
      let fileType ← parseInt (field line 6)
      let clearType ← if appType = 4 then pure 2 else parseInt (field line 7)
      let clearSuggestion ← parseInt (field line 8)
      pure (some
        { appId, appName := field line 2, appRootPath := field line 3,
          pkgs := split comma (field line 4), appType, fileType, clearType,
          clearSuggestion })) := by
  simp only [SkippedRootLine, not_or] at h
  obtain ⟨hlen, hname, hpath⟩ := h
  have get (i : Nat) (hi : i < 9) := elem_split hlen hi
  simp [parseRootPathLine, hlen, get, isEmpty, TextUtils.isEmpty, hname, hpath]

theorem parseSubPath_eq {line : JString} (h : ¬ SkippedSubLine line) :
    parseSubPath line = (do
      let appId ← parseInt (field line 1)
      let subId ← parseInt (field line 2)
      let subPathDescId ← parseInt (field line 4)
      let fileType ← parseInt (field line 5)
      let clearSuggestion ← parseInt (field line 6)
      let clearResidualType ← parseInt (field line 7)
      pure (some
        { appId, subId, subPath := field line 3, subPathDescId, fileType, clearType := 0,
          clearSuggestion, clearResidualType })) := by
  simp only [SkippedSubLine, not_or] at h
  obtain ⟨hne, hhash, hlen, hpath, hdesc⟩ := h
  have get (i : Nat) (hi : i < 8) := elem_split hlen hi
  simp [parseSubPath, hne, hhash, hlen, get, isEmpty, TextUtils.isEmpty, hpath, hdesc]

theorem parseIdText_eq {α : Type} (build : Int32 → JString → α) {line : JString}
    (h : ¬ SkippedIdTextLine line) :
    parseIdText build line = (do
      let id ← parseInt (field line 0)
      pure (some (build id (field line 1)))) := by
  simp only [SkippedIdTextLine, not_or] at h
  obtain ⟨hne, hlen, htext⟩ := h
  have get (i : Nat) (hi : i < 2) := elem_split hlen hi
  simp [parseIdText, hne, hlen, get, isEmpty, TextUtils.isEmpty, htext]

/-- A skipped root line is answered by null without an exception. -/
theorem parseRootPathLine_skipped {line : JString} (h : SkippedRootLine line) :
    parseRootPathLine line = .ok none := by
  by_cases hlen : (split semicolon line).length < 9
  · simp [parseRootPathLine, hlen]
  · have get (i : Nat) (hi : i < 9) := elem_split hlen hi
    have hempty := h.resolve_left hlen
    simp [parseRootPathLine, hlen, get, isEmpty, TextUtils.isEmpty, hempty]

theorem parseSubPath_skipped {line : JString} (h : SkippedSubLine line) :
    parseSubPath line = .ok none := by
  by_cases hne : line = [] ∨ [hash] <+: line
  · simp [parseSubPath, TextUtils.isEmpty, hne]
  by_cases hlen : (split semicolon line).length < 8
  · simp [parseSubPath, hlen, hne, TextUtils.isEmpty]
  · have get (i : Nat) (hi : i < 8) := elem_split hlen hi
    have hempty : field line 3 = [] ∨ field line 4 = [] := by
      unfold SkippedSubLine at h
      tauto
    simp [parseSubPath, hlen, hne, get, isEmpty, TextUtils.isEmpty, hempty]

theorem parseIdText_skipped {α : Type} (build : Int32 → JString → α) {line : JString}
    (h : SkippedIdTextLine line) : parseIdText build line = .ok none := by
  by_cases hne : line = []
  · simp [parseIdText, TextUtils.isEmpty, hne]
  by_cases hlen : (split semicolon line).length < 2
  · simp [parseIdText, hlen, hne, TextUtils.isEmpty]
  · have get (i : Nat) (hi : i < 2) := elem_split hlen hi
    have hempty : field line 1 = [] := by
      unfold SkippedIdTextLine at h
      tauto
    simp [parseIdText, hlen, hne, get, isEmpty, TextUtils.isEmpty, hempty]

/-- A root line that passes the tests is not answered by null, its root path is its
fourth field, and its packages are split off the fifth. -/
theorem exists_of_parseRootPathLine {line : JString} {o : Option RootPathInfo}
    (hline : ¬ SkippedRootLine line) (h : parseRootPathLine line = .ok o) :
    ∃ info, o = some info ∧ info.appRootPath = field line 3 ∧
      info.pkgs = split comma (field line 4) := by
  rw [parseRootPathLine_eq hline] at h
  obtain ⟨_, _, h⟩ := bind_eq_ok.mp h
  obtain ⟨_, _, h⟩ := bind_eq_ok.mp h
  obtain ⟨_, _, h⟩ := bind_eq_ok.mp h
  split at h
  · obtain ⟨_, _, h⟩ := bind_eq_ok.mp h
    obtain ⟨_, _, h⟩ := bind_eq_ok.mp h
    exact ⟨_, (Except.ok.inj h).symm, rfl, rfl⟩
  · obtain ⟨_, _, h⟩ := bind_eq_ok.mp h
    obtain ⟨_, _, h⟩ := bind_eq_ok.mp h
    exact ⟨_, (Except.ok.inj h).symm, rfl, rfl⟩

/-- An accepted root line passes the tests. -/
theorem not_skipped_of_parseRootPathLine {line : JString} {info : RootPathInfo}
    (h : parseRootPathLine line = .ok (some info)) : ¬ SkippedRootLine line := by
  intro hskipped
  rw [parseRootPathLine_skipped hskipped] at h
  cases h

/-- An accepted root line has a root path. -/
theorem appRootPath_ne_nil {line : JString} {info : RootPathInfo}
    (h : parseRootPathLine line = .ok (some info)) : info.appRootPath ≠ [] := by
  have hline := not_skipped_of_parseRootPathLine h
  obtain ⟨info', hinfo', hpath, _⟩ := exists_of_parseRootPathLine hline h
  obtain rfl := Option.some.inj hinfo'
  simp only [SkippedRootLine, not_or] at hline
  exact hpath ▸ hline.2.2

/-- The packages of an accepted root line. -/
theorem pkgs_of_parseRootPathLine {line : JString} {info : RootPathInfo}
    (h : parseRootPathLine line = .ok (some info)) : info.pkgs = split comma (field line 4) := by
  obtain ⟨info', hinfo', _, hpkgs⟩ :=
    exists_of_parseRootPathLine (not_skipped_of_parseRootPathLine h) h
  obtain rfl := Option.some.inj hinfo'
  exact hpkgs

/-- The lines answered by null are the skipped ones. -/
theorem parseRootPathLine_eq_none_iff {line : JString} :
    parseRootPathLine line = .ok none ↔ SkippedRootLine line := by
  refine ⟨?_, parseRootPathLine_skipped⟩
  intro h
  by_contra hline
  obtain ⟨_, hnone, _⟩ := exists_of_parseRootPathLine hline h
  cases hnone

theorem parseSubPath_eq_none_iff {line : JString} :
    parseSubPath line = .ok none ↔ SkippedSubLine line := by
  refine ⟨?_, parseSubPath_skipped⟩
  intro h
  by_contra hline
  rw [parseSubPath_eq hline] at h
  obtain ⟨_, _, h⟩ := bind_eq_ok.mp h
  obtain ⟨_, _, h⟩ := bind_eq_ok.mp h
  obtain ⟨_, _, h⟩ := bind_eq_ok.mp h
  obtain ⟨_, _, h⟩ := bind_eq_ok.mp h
  obtain ⟨_, _, h⟩ := bind_eq_ok.mp h
  obtain ⟨_, _, h⟩ := bind_eq_ok.mp h
  cases h

theorem parseIdText_eq_none_iff {α : Type} {build : Int32 → JString → α} {line : JString} :
    parseIdText build line = .ok none ↔ SkippedIdTextLine line := by
  refine ⟨?_, parseIdText_skipped build⟩
  intro h
  by_contra hline
  rw [parseIdText_eq build hline] at h
  obtain ⟨_, _, h⟩ := bind_eq_ok.mp h
  cases h

/-! ## Round trips of the documented formats -/

/-- A root record that the line format can carry. -/
structure RootRecord where
  appId : Int32
  appName : JString
  appRootPath : JString
  pkgs : List JString
  appType : Int32
  fileType : Int32
  clearType : Int32
  clearSuggestion : Int32
  appName_ne : appName ≠ []
  appName_sep : semicolon ∉ appName
  appRootPath_ne : appRootPath ≠ []
  appRootPath_sep : semicolon ∉ appRootPath
  pkgs_ne : pkgs ≠ []
  pkg_ne : ∀ pkg ∈ pkgs, pkg ≠ []
  pkg_sep : ∀ pkg ∈ pkgs, comma ∉ pkg ∧ semicolon ∉ pkg

/-- `1;id;name;path;p1,p2,...;appType;fileType;clearType;clearSuggestion` -/
def formatRootPathLine (r : RootRecord) : JString :=
  [semicolon].intercalate
    [js "1", intToString r.appId, r.appName, r.appRootPath, [comma].intercalate r.pkgs,
      intToString r.appType, intToString r.fileType, intToString r.clearType,
      intToString r.clearSuggestion]

/-- What a root record means: the clear type of advertising data is 2. -/
def RootRecord.info (r : RootRecord) : RootPathInfo where
  appId := r.appId
  appName := r.appName
  appRootPath := r.appRootPath
  pkgs := r.pkgs
  appType := r.appType
  fileType := r.fileType
  clearType := if r.appType = 4 then 2 else r.clearType
  clearSuggestion := r.clearSuggestion

/-- A non-empty text that the `id;text` format can carry. -/
structure LineText where
  text : JString
  text_ne : text ≠ []
  text_sep : semicolon ∉ text

/-- `id;text` -/
def formatIdText (id : Int32) (t : LineText) : JString :=
  [semicolon].intercalate [intToString id, t.text]

theorem semicolon_not_mem_intToString (i : Int32) : semicolon ∉ intToString i :=
  not_mem_intToString (by decide) (by decide) i

theorem split_formatRootPathLine (r : RootRecord) :
    split semicolon (formatRootPathLine r) =
      [js "1", intToString r.appId, r.appName, r.appRootPath, [comma].intercalate r.pkgs,
        intToString r.appType, intToString r.fileType, intToString r.clearType,
        intToString r.clearSuggestion] := by
  have htag : semicolon ∉ js "1" := by decide
  have hpkgs : semicolon ∉ [comma].intercalate r.pkgs :=
    not_mem_intercalate (by decide) (fun pkg hpkg => (r.pkg_sep pkg hpkg).2)
  apply split_intercalate (by simp)
  · simp [htag, hpkgs, semicolon_not_mem_intToString, r.appName_sep, r.appRootPath_sep]
  · simpa using intToString_ne_nil r.clearSuggestion

theorem split_comma_pkgs (r : RootRecord) :
    split comma ([comma].intercalate r.pkgs) = r.pkgs := by
  apply split_intercalate r.pkgs_ne (fun pkg hpkg => (r.pkg_sep pkg hpkg).1)
  exact r.pkg_ne _ (List.getLast_mem r.pkgs_ne)

/-- Decoding a formatted root record gives its meaning. -/
theorem parseRootPathLine_formatRootPathLine (r : RootRecord) :
    parseRootPathLine (formatRootPathLine r) = .ok (some r.info) := by
  have hsplit := split_formatRootPathLine r
  have hline : ¬ SkippedRootLine (formatRootPathLine r) := by
    simp [SkippedRootLine, field, hsplit, r.appName_ne, r.appRootPath_ne]
  rw [parseRootPathLine_eq hline]
  simp only [field, hsplit, List.getD_cons_succ, List.getD_cons_zero, parseInt_intToString,
    ok_bind, split_comma_pkgs]
  split
  · rename_i hads
    simp [RootRecord.info, hads]
  · rename_i hads
    simp [RootRecord.info, hads]

/-- Decoding a formatted `id;text` line gives the pair, whatever it is stored in. -/
theorem parseIdText_formatIdText {α : Type} (build : Int32 → JString → α) (id : Int32)
    (t : LineText) : parseIdText build (formatIdText id t) = .ok (some (build id t.text)) := by
  have hsplit : split semicolon (formatIdText id t) = [intToString id, t.text] := by
    apply split_intercalate (by simp)
    · simp [semicolon_not_mem_intToString, t.text_sep]
    · simpa using t.text_ne
  have hne : formatIdText id t ≠ [] := by simp [formatIdText]
  have hline : ¬ SkippedIdTextLine (formatIdText id t) := by
    simp [SkippedIdTextLine, field, hsplit, hne, t.text_ne]
  rw [parseIdText_eq build hline]
  simp [field, hsplit, parseInt_intToString]

/-- **Decoding undoes the documented formats.** -/
theorem decode_documented_format :
    (∀ r : RootRecord, parseRootPathLine (formatRootPathLine r) = .ok (some r.info)) ∧
      ∀ (id : Int32) (t : LineText),
        parseTrashInfoDesc (formatIdText id t) = .ok (some ⟨id, t.text⟩) ∧
          parseAppInfo (formatIdText id t) = .ok (some ⟨id, t.text⟩) := by
  refine ⟨parseRootPathLine_formatRootPathLine, fun id t => ⟨?_, ?_⟩⟩
  · exact parseIdText_formatIdText TrashInfoDesc.mk id t
  · exact parseIdText_formatIdText AppInfo.mk id t

/-! ## The classification fields of the two path formats -/

/-- A line of the root format whose numeric fields have the given values. -/
structure IsRootLine (line : JString) (appType fileType clearType clearSuggestion : Int32) :
    Prop where
  fields : (split semicolon line).length = 9
  appId : ∃ i, parseInt (field line 1) = .ok i
  appName : field line 2 ≠ []
  appRootPath : field line 3 ≠ []
  appType : parseInt (field line 5) = .ok appType
  fileType : parseInt (field line 6) = .ok fileType
  clearType : parseInt (field line 7) = .ok clearType
  clearSuggestion : parseInt (field line 8) = .ok clearSuggestion

/-- A line of the sub path format with eight fields, the last three of them with
the given values. -/
structure IsSubLine (line : JString) (first second third : Int32) : Prop where
  noComment : ¬ [hash] <+: line
  fields : (split semicolon line).length = 8
  appId : ∃ i, parseInt (field line 1) = .ok i
  subId : ∃ i, parseInt (field line 2) = .ok i
  subPath : field line 3 ≠ []
  subPathDescId : ∃ i, parseInt (field line 4) = .ok i
  first : parseInt (field line 5) = .ok first
  second : parseInt (field line 6) = .ok second
  third : parseInt (field line 7) = .ok third

/-- Both lines are accepted, the records agree on the three classification
fields, and the sub path record has its ids and its path from fields 2 to 5. -/
def SharedFieldsAgree (root sub : JString) : Prop :=
  ∃ r s, parseRootPathLine root = .ok (some r) ∧ parseSubPath sub = .ok (some s) ∧
    (r.fileType = s.fileType ∧ r.clearType = s.clearType ∧
      r.clearSuggestion = s.clearSuggestion) ∧
    parseInt (field sub 1) = .ok s.appId ∧ parseInt (field sub 2) = .ok s.subId ∧
    s.subPath = field sub 3 ∧ parseInt (field sub 4) = .ok s.subPathDescId

/-- The number fields of a printed number are not empty. -/
theorem ne_nil_of_parseInt {s : JString} {i : Int32} (h : parseInt s = .ok i) : s ≠ [] := by
  intro h'
  obtain rfl := h'
  simp [parseInt] at h

/-- What a root line is read as, when it is no advertising data. -/
theorem parseRootPathLine_of_isRootLine {line : JString} {appType f c g : Int32}
    (h : IsRootLine line appType f c g) (hads : appType ≠ 4) :
    ∃ r, parseRootPathLine line = .ok (some r) ∧
      r.fileType = f ∧ r.clearType = c ∧ r.clearSuggestion = g := by
  obtain ⟨i, hi⟩ := h.appId
  have hline : ¬ SkippedRootLine line := by
    simp [SkippedRootLine, h.fields, h.appName, h.appRootPath]
  refine ⟨⟨i, field line 2, field line 3, split comma (field line 4), appType, f, c, g⟩, ?_,
    rfl, rfl, rfl⟩
  rw [parseRootPathLine_eq hline, hi, h.appType, h.fileType, h.clearType, h.clearSuggestion]
  simp only [ok_bind, if_neg hads]
  rfl

/-- What a sub path line is read as: the second and the third shared number are
stored one record field further than those of a root line. -/
theorem parseSubPath_of_isSubLine {line : JString} {f c g : Int32} (h : IsSubLine line f c g) :
    ∃ s, parseSubPath line = .ok (some s) ∧
      s.fileType = f ∧ s.clearType = 0 ∧ s.clearSuggestion = c ∧ s.clearResidualType = g ∧
      parseInt (field line 1) = .ok s.appId ∧ parseInt (field line 2) = .ok s.subId ∧
      s.subPath = field line 3 ∧ parseInt (field line 4) = .ok s.subPathDescId := by
  obtain ⟨i, hi⟩ := h.appId
  obtain ⟨j, hj⟩ := h.subId
  obtain ⟨k, hk⟩ := h.subPathDescId
  have hne : line ≠ [] := by
    intro h'
    obtain rfl := h'
    have hlen := h.fields
    simp [split] at hlen
  have hline : ¬ SkippedSubLine line := by
    simp [SkippedSubLine, hne, h.noComment, h.fields, h.subPath, ne_nil_of_parseInt hk]
  refine ⟨⟨i, j, field line 3, k, f, 0, c, g⟩, ?_, rfl, rfl, rfl, rfl, hi, hj, rfl, hk⟩
  rw [parseSubPath_eq hline, hi, hj, hk, h.first, h.second, h.third]
  rfl

/-- **The two path parsers agree on the fields they share only when there is
nothing to store**: when the second and the third of the three numbers are 0. -/
theorem shared_fields_agree_iff {root sub : JString} {appType first second third : Int32}
    (hroot : IsRootLine root appType first second third) (hads : appType ≠ 4)
    (hsub : IsSubLine sub first second third) :
    SharedFieldsAgree root sub ↔ second = 0 ∧ third = 0 := by
  obtain ⟨r, hr, hrf, hrc, hrg⟩ := parseRootPathLine_of_isRootLine hroot hads
  obtain ⟨s, hs, hsf, hsc, hsg, _, hreads⟩ := parseSubPath_of_isSubLine hsub
  constructor
  · intro h
    obtain ⟨r', s', hr', hs', ⟨_, hclear, hsuggestion⟩, _⟩ := h
    obtain rfl : r = r' := by simpa [hr] using hr'
    obtain rfl : s = s' := by simpa [hs] using hs'
    rw [hrc, hsc] at hclear
    rw [hrg, hsg] at hsuggestion
    exact ⟨hclear, hsuggestion.trans hclear⟩
  · intro h
    obtain ⟨rfl, rfl⟩ := h
    exact ⟨r, s, hr, hs, ⟨hrf.trans hsf.symm, hrc.trans hsc.symm, hrg.trans hsg.symm⟩, hreads⟩

/-- The condition at the lines `1;5;n;p;x;2;7;0;0` and `2;5;1;q;3;7;0;0`. -/
theorem shared_fields_agree_zeros :
    SharedFieldsAgree (js "1;5;n;p;x;2;7;0;0") (js "2;5;1;q;3;7;0;0") ↔
      (0 : Int32) = 0 ∧ (0 : Int32) = 0 := by
  have hroot : IsRootLine (js "1;5;n;p;x;2;7;0;0") 2 7 0 0 :=
    ⟨by decide, ⟨5, by decide⟩, by decide, by decide, by decide, by decide, by decide, by decide⟩
  have hsub : IsSubLine (js "2;5;1;q;3;7;0;0") 7 0 0 :=
    ⟨by decide, by decide, ⟨5, by decide⟩, ⟨1, by decide⟩, by decide, ⟨3, by decide⟩, by decide,
      by decide, by decide⟩
  exact shared_fields_agree_iff hroot (by decide) hsub

/-- The numbers `4, 2, 5` of a root line and of a sub path line end up in
different columns. -/
theorem shared_fields_differ :
    IsRootLine (js "1;5;n;p;x;2;4;2;5") 2 4 2 5 ∧ IsSubLine (js "2;5;1;q;3;4;2;5") 4 2 5 ∧
      ¬ SharedFieldsAgree (js "1;5;n;p;x;2;4;2;5") (js "2;5;1;q;3;4;2;5") := by
  refine ⟨?_, ?_, ?_⟩
  · exact ⟨by decide, ⟨5, by decide⟩, by decide, by decide, by decide, by decide, by decide,
      by decide⟩
  · exact ⟨by decide, by decide, ⟨5, by decide⟩, ⟨1, by decide⟩, by decide, ⟨3, by decide⟩,
      by decide, by decide, by decide⟩
  · intro h
    obtain ⟨r, s, hr, hs, ⟨_, hclear, _⟩, _⟩ := h
    have hroot : parseRootPathLine (js "1;5;n;p;x;2;4;2;5") =
        .ok (some ⟨5, js "n", js "p", [js "x"], 2, 4, 2, 5⟩) := by decide
    have hsub : parseSubPath (js "2;5;1;q;3;4;2;5") =
        .ok (some ⟨5, 1, js "q", 3, 4, 0, 2, 5⟩) := by decide
    rw [hroot, Except.ok.injEq, Option.some.injEq] at hr
    rw [hsub, Except.ok.injEq, Option.some.injEq] at hs
    subst r s
    exact absurd hclear (by decide)

/-! ## The tags of the two path formats -/

/-- The documented first field of a root line. -/
def rootTag : JString := js "1"

/-- The documented first field of a sub path line. -/
def subTag : JString := js "2"

/-- Each path parser reads the lines with its own tag and answers all others by
null, so no line is read by both. -/
structure TagsKept (line : JString) : Prop where
  rootAccepts : ∀ r, parseRootPathLine line = .ok (some r) → field line 0 = rootTag
  rootNull : field line 0 ≠ rootTag → parseRootPathLine line = .ok none
  subAccepts : ∀ s, parseSubPath line = .ok (some s) → field line 0 = subTag
  subNull : field line 0 ≠ subTag → parseSubPath line = .ok none
  disjoint : ∀ r s, parseRootPathLine line = .ok (some r) → parseSubPath line ≠ .ok (some s)

/-- **The tag of a line is not looked at**: the parsers keep to the tags exactly on
the lines that have the right one anyway, or that they skip for another reason. -/
theorem tagsKept_iff (line : JString) :
    TagsKept line ↔
      (field line 0 = rootTag ∨ SkippedRootLine line) ∧
        (field line 0 = subTag ∨ SkippedSubLine line) := by
  constructor
  · intro h
    refine ⟨?_, ?_⟩
    · by_cases htag : field line 0 = rootTag
      · exact Or.inl htag
      · exact Or.inr (parseRootPathLine_eq_none_iff.mp (h.rootNull htag))
    · by_cases htag : field line 0 = subTag
      · exact Or.inl htag
      · exact Or.inr (parseSubPath_eq_none_iff.mp (h.subNull htag))
  · intro h
    obtain ⟨hroot, hsub⟩ := h
    have hrootNull (htag : field line 0 ≠ rootTag) : parseRootPathLine line = .ok none :=
      parseRootPathLine_skipped (hroot.resolve_left htag)
    have hsubNull (htag : field line 0 ≠ subTag) : parseSubPath line = .ok none :=
      parseSubPath_skipped (hsub.resolve_left htag)
    have hrootAccepts (r : RootPathInfo) (hr : parseRootPathLine line = .ok (some r)) :
        field line 0 = rootTag := by
      by_contra htag
      rw [hrootNull htag] at hr
      cases hr
    have hsubAccepts (s : SubPathInfo) (hs : parseSubPath line = .ok (some s)) :
        field line 0 = subTag := by
      by_contra htag
      rw [hsubNull htag] at hs
      cases hs
    refine ⟨hrootAccepts, hrootNull, hsubAccepts, hsubNull, ?_⟩
    intro r s hr hs
    have hsame : rootTag = subTag := (hrootAccepts r hr).symm.trans (hsubAccepts s hs)
    exact absurd hsame (by decide)

/-- A sub path line with a ninth field is read by both parsers. -/
theorem not_tagsKept_nine_fields : ¬ TagsKept (js "2;34;2;.cache/images;4;3;1;1;0") := by
  intro h
  have hroot : parseRootPathLine (js "2;34;2;.cache/images;4;3;1;1;0") =
      .ok (some ⟨34, js "2", js ".cache/images", [js "4"], 3, 1, 1, 0⟩) := by decide
  have hsub : parseSubPath (js "2;34;2;.cache/images;4;3;1;1;0") =
      .ok (some ⟨34, 2, js ".cache/images", 4, 3, 0, 1, 1⟩) := by decide
  exact h.disjoint _ _ hroot hsub

end TrashClear
