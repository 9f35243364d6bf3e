import TrashClear.Java.Files

/-!
# Changing the encoding of a file

`FileUtil.copyFile(File, File, String, String)` reads a text into one buffer of 5120
characters and writes it in another charset.  A read that gives nothing ends the loop, at
the end of the text and when the buffer is full.

`recoded_iff`: the whole text arrives exactly when it fits into the buffer, and is not read
from the file that the output stream has emptied.
-/

namespace TrashClear.FileUtil

open Java Disk Run Files

/-! ## The function -/

/-- A charset.  What it cannot represent is replaced, by no more characters. -/
structure Charset where
  encode : JString → List UInt8
  decode : List UInt8 → JString
  decode_nil : decode [] = []
  length_decode_encode : ∀ s, (decode (encode s)).length ≤ s.length

/-- No text has the code of a shorter one. -/
theorem Charset.length_le {coding : Charset} {s text : JString}
    (htext : coding.decode (coding.encode text) = text)
    (h : coding.encode s = coding.encode text) : text.length ≤ s.length := by
  have hlength := coding.length_decode_encode s
  rwa [h, htext] at hlength

/-- UTF-8. -/
def utf8 : Charset where
  encode := getBytes
  decode := newString
  decode_nil := rfl
  length_decode_encode := fun s => by
    rw [newString, getBytes, Utf.decode8_encode8]
    exact Utf.length_encode16_scalars (by decide) s

/-- `br.read(cbuf, off, len)`, when `split` characters are at hand. -/
def read (split len : Nat) (rest : JString) : Int :=
  if len = 0 then 0
  else if rest = [] then -1
  else (min (max 1 split) (min len rest.length) : Nat)

theorem read_cases (split len : Nat) (rest : JString) :
    (¬ 0 < read split len rest ∧ rest.take len = []) ∨
      0 < read split len rest ∧ 0 < (read split len rest).toNat ∧
        (read split len rest).toNat ≤ len := by
  unfold read
  by_cases hlen : len = 0
  · rw [if_pos hlen, hlen]
    exact Or.inl ⟨by omega, rfl⟩
  · rw [if_neg hlen]
    by_cases hrest : rest = []
    · rw [if_pos hrest, hrest]
      exact Or.inl ⟨by omega, List.take_nil⟩
    · have hpos := List.length_pos_of_ne_nil hrest
      rw [if_neg hrest]
      exact Or.inr ⟨by omega, by omega, by omega⟩

/-- The read loop, with `cbuf` in the buffer and room for `len` characters. -/
def readLoop (splits : Nat → Nat) (srcFileName destFileName : JPath) (i : Nat) (cbuf : JString)
    (len : Nat) (rest : JString) : Files JString := do
  transfer srcFileName destFileName []
  if _h : 0 < read (splits i) len rest then
    let ret := (read (splits i) len rest).toNat
    readLoop splits srcFileName destFileName (i + 1) (cbuf ++ rest.take ret) (len - ret)
      (rest.drop ret)
  else return cbuf
termination_by len
decreasing_by
  rcases read_cases (splits i) len rest with hend | ⟨-, hpos, hle⟩
  · exact absurd _h hend.1
  · omega

/-- What an open reader finds. -/
def remaining (srcFileName : JPath) : Files (List UInt8) := do
  match (← get).files.lookup srcFileName with
  | some (.file content) => return content
  | _ => return []

/-- Copy a text from one charset to another. -/
def copyFileCoding (splits : Nat → Nat) (srcFileName destFileName : JPath)
    (srcCoding destCoding : Charset) : Files Unit := do
  let _ ← openInput srcFileName
  openOutput destFileName
  let text := srcCoding.decode (← remaining srcFileName)
  let cbuf ← readLoop splits srcFileName destFileName 0 [] 5120 text
  -- the writer keeps 8192 characters, until it is flushed
  transfer srcFileName destFileName []
  transfer srcFileName destFileName (destCoding.encode cbuf)
  -- the close of either stream
  transfer srcFileName destFileName (destCoding.encode cbuf)
  transfer srcFileName destFileName (destCoding.encode cbuf)

/-! ## What is read -/

section ReadLoop

variable {splits : Nat → Nat} {srcFileName destFileName : JPath} {files : Tree} {m : Machine}

/-- **The loop** reads what there is room for. -/
theorem returns_readLoop (hopen : files.Open destFileName) (len : Nat) (i : Nat)
    (cbuf rest : JString) (hm : files.Writes destFileName [] m.files) :
    Returns (readLoop splits srcFileName destFileName i cbuf len rest) m fun text files' =>
      text = cbuf ++ rest.take len ∧ files.Writes destFileName [] files' := by
  induction len using Nat.strongRecOn generalizing i cbuf rest m with
  | ind len ih =>
      rw [readLoop]
      apply (returns_transfer hopen hm).bind
      intro _ m' hm'
      rcases read_cases (splits i) len rest with ⟨hend, hnothing⟩ | ⟨hgoes, hpos, hle⟩
      · rw [dif_neg hend, hnothing, List.append_nil]
        exact returns_pure ⟨rfl, hm'⟩
      · rw [dif_pos hgoes]
        generalize (read (splits i) len rest).toNat = ret at hpos hle ⊢
        have hsplit : len = ret + (len - ret) := by omega
        have htake : cbuf ++ rest.take len =
            cbuf ++ rest.take ret ++ (rest.drop ret).take (len - ret) := by
          rw [List.append_assoc, ← List.take_add, ← hsplit]
        rw [htake]
        exact ih (len - ret) (by omega) (i + 1) _ _ hm'

theorem returns_remaining {content : List UInt8}
    (h : m.files.lookup srcFileName = some (.file content)) :
    Returns (remaining srcFileName) m fun found files' => found = content ∧ files' = m.files := by
  unfold Returns
  rw [remaining, run_get_bind, h]
  exact ⟨⟨rfl, rfl⟩, id⟩

end ReadLoop

/-! ## What arrives -/

section CopyFileCoding

variable {splits : Nat → Nat} {srcFileName destFileName : JPath} {srcCoding destCoding : Charset}
  {m m' : Machine} {content : List UInt8}

/-- The beginning of the text arrives, or nothing of it. -/
theorem returns_copyFileCoding (hsource : m.files.lookup srcFileName = some (.file content))
    (hopen : m.files.Open destFileName) :
    Returns (copyFileCoding splits srcFileName destFileName srcCoding destCoding) m
      fun _ files' => m.files.Writes destFileName (destCoding.encode ((srcCoding.decode
        (if srcFileName = destFileName then [] else content)).take 5120)) files' := by
  unfold copyFileCoding
  apply (returns_openInput hsource).bind
  intro _ m₁ hinput
  obtain ⟨-, hm₁⟩ := hinput
  apply (returns_openOutput (hm₁ ▸ hopen)).bind
  intro _ m₂ hm₂
  have hempty : m.files.Writes destFileName [] m₂.files := by
    rw [hm₂, hm₁]
    exact FileSystem.writes_put hopen []
  have hfound : m₂.files.lookup srcFileName =
      some (.file (if srcFileName = destFileName then [] else content)) := by
    rw [hempty, hsource]
    split <;> rfl
  apply (returns_remaining hfound).bind
  intro found m₃ hremaining
  obtain ⟨rfl, hm₃⟩ := hremaining
  apply (returns_readLoop hopen 5120 0 [] _ (hm₃ ▸ hempty)).bind
  intro cbuf m₄ hread
  obtain ⟨rfl, hm₄⟩ := hread
  rw [List.nil_append]
  apply (returns_transfer hopen hm₄).bind
  intro _ m₅ hm₅
  apply (returns_transfer hopen hm₅).bind
  intro _ m₆ hm₆
  apply (returns_transfer hopen hm₆).bind
  intro _ m₇ hm₇
  exact returns_transfer hopen hm₇

/-- A copy that returns has opened its destination. -/
theorem open_of_copyFileCoding
    (hrun : copyFileCoding splits srcFileName destFileName srcCoding destCoding m = .ok () m')
    (hsource : m.files.lookup srcFileName = some (.file content)) :
    m.files.Open destFileName := by
  unfold copyFileCoding at hrun
  obtain ⟨_, m₁, hinput, hrun⟩ := run_bind_ok.mp hrun
  obtain ⟨_, m₂, houtput, -⟩ := run_bind_ok.mp hrun
  obtain ⟨-, hm₁⟩ := (returns_openInput hsource).post_of_ok hinput
  obtain ⟨faults, hthrows | ⟨hopen, -⟩⟩ := openOutput_cases destFileName m₁
  · rw [hthrows] at houtput
    cases houtput
  · rwa [hm₁] at hopen

/-- A text in the file `a`. -/
def textFile (text : JString) : Tree := FileSystem.empty.put [js "a"] (.file (utf8.encode text))

theorem lookup_textFile (text : JString) (q : JPath) : (textFile text).lookup q =
    if q = [js "a"] then some (.file (utf8.encode text))
    else (FileSystem.empty : Tree).lookup q := by
  have hopen : (FileSystem.empty : Tree).Open [js "a"] := by decide
  exact FileSystem.lookup_put hopen _ q

/-- What fits into the buffer is copied to the file `b`. -/
theorem copies_textFile (splits : Nat → Nat) {text : JString}
    (htext : utf8.decode (utf8.encode text) = text) : ∃ m',
    copyFileCoding splits [js "a"] [js "b"] utf8 utf8 ⟨textFile text, []⟩ = .ok () m' ∧
      m'.files.lookup [js "b"] = some (.file (utf8.encode (text.take 5120))) := by
  have hne : [js "b"] ≠ [js "a"] := by decide
  have hsource : (textFile text).lookup [js "a"] = some (.file (utf8.encode text)) := by
    rw [lookup_textFile, if_pos rfl]
  have hopen : (textFile text).Open [js "b"] := by
    refine ⟨by decide, FileSystem.lookup_nil _, ?_⟩
    rw [lookup_textFile, if_neg hne]
    decide
  have hcopies : Returns (copyFileCoding splits [js "a"] [js "b"] utf8 utf8)
      ⟨textFile text, []⟩ _ := returns_copyFileCoding hsource hopen
  obtain ⟨_, m', hrun, hwrites⟩ := hcopies.exists_ok rfl
  refine ⟨m', hrun, ?_⟩
  rw [hwrites, if_pos rfl, if_neg hne.symm, htext]

/-- The destination holds `text` in its charset. -/
def Recoded (destCoding : Charset) (text : JString) (destFileName : JPath) (files : Tree) : Prop :=
  files.lookup destFileName = some (.file (destCoding.encode text))

/-- **The text is copied** exactly when it fits into the buffer, and is not overwritten
before it is read. -/
theorem recoded_iff (hsource : m.files.lookup srcFileName = some (.file content))
    (htext : destCoding.decode (destCoding.encode (srcCoding.decode content)) =
      srcCoding.decode content)
    (hrun : copyFileCoding splits srcFileName destFileName srcCoding destCoding m = .ok () m') :
    Recoded destCoding (srcCoding.decode content) destFileName m'.files ↔
      (srcCoding.decode content).length ≤ 5120 ∧
        (srcFileName ≠ destFileName ∨ srcCoding.decode content = []) := by
  have hopen := open_of_copyFileCoding hrun hsource
  have hwrites := (returns_copyFileCoding hsource hopen).post_of_ok hrun
  unfold Recoded
  rw [hwrites, if_pos rfl, Option.some.injEq, Entry.file.injEq]
  by_cases hsame : srcFileName = destFileName
  · rw [if_pos hsame, srcCoding.decode_nil, List.take_nil]
    constructor
    · intro hall
      have hnil := List.eq_nil_of_length_eq_zero (Nat.le_zero.mp (Charset.length_le htext hall))
      rw [hnil]
      exact ⟨Nat.zero_le _, Or.inr rfl⟩
    · intro h
      rw [h.2.resolve_left fun hne => hne hsame]
  · rw [if_neg hsame]
    constructor
    · intro hall
      have hle := (Charset.length_le htext hall).trans (List.length_take_le _ _)
      exact ⟨hle, Or.inl hsame⟩
    · intro h
      rw [List.take_of_length_le h.1]

theorem recoded_iff_short : ∃ m',
    copyFileCoding (fun _ => 1) [js "a"] [js "b"] utf8 utf8 ⟨textFile (js "xy"), []⟩ =
        .ok () m' ∧
      (Recoded utf8 (utf8.decode (utf8.encode (js "xy"))) [js "b"] m'.files ↔
        (utf8.decode (utf8.encode (js "xy"))).length ≤ 5120 ∧
          ([js "a"] ≠ [js "b"] ∨ utf8.decode (utf8.encode (js "xy")) = [])) := by
  have htext : utf8.decode (utf8.encode (js "xy")) = js "xy" := newString_getBytes _
  have hsource : (textFile (js "xy")).lookup [js "a"] = some (.file (utf8.encode (js "xy"))) := by
    rw [lookup_textFile, if_pos rfl]
  obtain ⟨m', hrun, -⟩ := copies_textFile (fun _ => 1) htext
  exact ⟨m', hrun, recoded_iff (m := ⟨textFile (js "xy"), []⟩) hsource
    (congrArg (fun text => utf8.decode (utf8.encode text)) htext) hrun⟩

/-- One character more than the buffer has room for. -/
def longText : JString := List.replicate 5121 0x61

theorem decode_longText : utf8.decode (utf8.encode longText) = longText := by
  apply newString_getBytes_ascii
  intro u hu
  rw [List.eq_of_mem_replicate hu]
  decide

/-- The last character is lost. -/
theorem not_recoded_long : ∃ m',
    copyFileCoding (fun _ => 8192) [js "a"] [js "b"] utf8 utf8 ⟨textFile longText, []⟩ =
        .ok () m' ∧
      utf8.decode (utf8.encode longText) = longText ∧
      ¬ Recoded utf8 longText [js "b"] m'.files := by
  obtain ⟨m', hrun, hpart⟩ := copies_textFile (fun _ => 8192) decode_longText
  refine ⟨m', hrun, decode_longText, fun hall => ?_⟩
  rw [Recoded, hpart, Option.some.injEq, Entry.file.injEq] at hall
  have hle := Charset.length_le decode_longText hall
  rw [List.length_take, longText, List.length_replicate] at hle
  omega

end CopyFileCoding

end TrashClear.FileUtil
