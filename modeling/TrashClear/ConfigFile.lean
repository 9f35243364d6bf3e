import TrashClear.LocalFileParser

/-!
# Reading a configuration

`FileUtil.parseConfigFile` collects the lines of a text until one is null or empty, so a
blank line ends the loop as the end of the text does.

* `parseConfigFile_eq`: the result is what stands before the first blank line.
* `parseConfigFile_iff`: that is the whole configuration exactly when blank lines and
  comments alone follow.
-/

namespace TrashClear.FileUtil

open Java

/-! ## The function -/

/-- A reader: its text, and after how many lines reading throws, if it does. -/
structure Reader where
  text : JString
  failsAfter : Option Nat
  deriving DecidableEq, Repr

/-- The loop, on the lines that are left.  Every exception is caught, so that its kind does
not matter. -/
def configLoop : Option Nat → List JString → List JString → Except Unit (List JString)
  | some 0, _, _ => .error ()
  -- `readLine` returns null
  | _, [], configList => .ok configList
  | failsAfter, line :: lines, configList =>
      if TextUtils.isEmpty line then .ok configList
      else if [hash].isPrefixOf line then configLoop (failsAfter.map (· - 1)) lines configList
      else configLoop (failsAfter.map (· - 1)) lines (configList ++ [line])

/-- A list, or null for the empty one. -/
def orNull (configList : List JString) : Option (List JString) :=
  if configList.length > 0 then some configList else none

/-- Read a configuration. -/
def parseConfigFile : Option Reader → Option (List JString)
  -- there is no buffered reader for null
  | none => none
  | some reader =>
      match configLoop reader.failsAfter (readLines reader.text) [] with
      | .error _ => none
      | .ok configList => orNull configList

/-! ## What it should return -/

/-- A line that is neither blank nor a comment. -/
def isConfig (line : JString) : Bool := !line.isEmpty && !([hash].isPrefixOf line)

/-- The configuration in a text, null when there is none. -/
def configuration (text : JString) : Option (List JString) :=
  orNull ((readLines text).filter isConfig)

/-! ## What it returns -/

/-- The lines before the first blank one. -/
def beforeBlank (lines : List JString) : List JString := lines.takeWhile fun line => !line.isEmpty

/-- The first blank line and what follows it. -/
def fromBlank (lines : List JString) : List JString := lines.dropWhile fun line => !line.isEmpty

theorem orNull_injective {xs ys : List JString} (h : orNull xs = orNull ys) : xs = ys := by
  unfold orNull at h
  cases xs with
  | nil =>
      cases ys with
      | nil => rfl
      | cons y ys => simp at h
  | cons x xs =>
      cases ys with
      | nil => simp at h
      | cons y ys => simpa using h

/-- A line that is read is added when it is not a comment. -/
theorem configLoop_cons {line : JString} (hline : line.isEmpty = false) {failsAfter : Option Nat}
    (hreads : failsAfter ≠ some 0) (lines configList : List JString) :
    configLoop failsAfter (line :: lines) configList =
      configLoop (failsAfter.map (· - 1)) lines (configList ++ [line].filter isConfig) := by
  rw [configLoop, TextUtils.isEmpty, hline, if_neg Bool.false_ne_true]
  · by_cases hcomment : [hash].isPrefixOf line = true
    · have hskip : isConfig line = false := by
        rw [isConfig, hcomment, Bool.not_true, Bool.and_false]
      rw [if_pos hcomment, List.filter_cons_of_neg (by rw [hskip]; exact Bool.false_ne_true)]
      simp
    · have hkeep : isConfig line = true := by
        rw [isConfig, hline, Bool.eq_false_iff.mpr hcomment]
        rfl
      rw [if_neg hcomment, List.filter_cons_of_pos hkeep]
      rfl
  · exact hreads

/-- Whether `n` lines can be read, and the one that follows or the end. -/
def reads (failsAfter : Option Nat) (n : Nat) : Bool := failsAfter.all fun k => n < k

theorem reads_zero {failsAfter : Option Nat} (h : failsAfter ≠ some 0) :
    reads failsAfter 0 = true := by
  rcases failsAfter with _ | _ | k
  · rfl
  · exact absurd rfl h
  · exact decide_eq_true (Nat.succ_pos k)

theorem reads_succ (failsAfter : Option Nat) (n : Nat) :
    reads failsAfter (n + 1) = reads (failsAfter.map (· - 1)) n := by
  rcases failsAfter with _ | k
  · rfl
  · simp only [reads, Option.map_some, Option.all_some, decide_eq_decide]
    omega

/-- **The loop** keeps the configuration before the first blank line, when it can be read. -/
theorem configLoop_eq (lines : List JString) (failsAfter : Option Nat)
    (configList : List JString) :
    configLoop failsAfter lines configList =
      if reads failsAfter (beforeBlank lines).length then
        .ok (configList ++ (beforeBlank lines).filter isConfig)
      else .error () := by
  induction lines generalizing failsAfter configList with
  | nil =>
      by_cases hfails : failsAfter = some 0
      · rw [hfails]
        rfl
      · rw [configLoop, beforeBlank, List.takeWhile_nil, List.length_nil,
          if_pos (reads_zero hfails), List.filter_nil, List.append_nil]
        exact hfails
  | cons line lines ih =>
      by_cases hfails : failsAfter = some 0
      · rw [hfails]
        rfl
      · by_cases hblank : line.isEmpty = true
        · have hnone : beforeBlank (line :: lines) = [] := by
            rw [beforeBlank, List.takeWhile_cons_of_neg (by simp [hblank])]
          rw [configLoop, TextUtils.isEmpty, if_pos hblank, hnone, List.length_nil,
            if_pos (reads_zero hfails), List.filter_nil, List.append_nil]
          exact hfails
        · have hmore : beforeBlank (line :: lines) = line :: beforeBlank lines := by
            rw [beforeBlank, List.takeWhile_cons_of_pos (by simp [hblank])]
            rfl
          have hparts : (line :: beforeBlank lines).filter isConfig =
              [line].filter isConfig ++ (beforeBlank lines).filter isConfig := by
            rw [← List.filter_append]
            rfl
          rw [configLoop_cons (Bool.eq_false_iff.mpr hblank) hfails, ih, hmore, hparts,
            List.length_cons, reads_succ, List.append_assoc]

/-- **What is returned**: the configuration before the first blank line. -/
theorem parseConfigFile_eq (reader : Reader) :
    parseConfigFile (some reader) =
      if reads reader.failsAfter (beforeBlank (readLines reader.text)).length then
        orNull ((beforeBlank (readLines reader.text)).filter isConfig)
      else none := by
  rw [parseConfigFile, configLoop_eq, List.nil_append]
  by_cases hreads : reads reader.failsAfter (beforeBlank (readLines reader.text)).length = true
  · rw [if_pos hreads, if_pos hreads]
  · rw [if_neg hreads, if_neg hreads]

/-- **The whole configuration is returned** exactly when blank lines and comments alone
follow the first blank line. -/
theorem parseConfigFile_iff (text : JString) :
    parseConfigFile (some ⟨text, none⟩) = configuration text ↔
      ∀ line ∈ fromBlank (readLines text), isConfig line = false := by
  have hsplit : (readLines text).filter isConfig =
      (beforeBlank (readLines text)).filter isConfig ++
        (fromBlank (readLines text)).filter isConfig := by
    rw [← List.filter_append, beforeBlank, fromBlank, List.takeWhile_append_dropWhile]
  have hreturned : parseConfigFile (some ⟨text, none⟩) =
      orNull ((beforeBlank (readLines text)).filter isConfig) := parseConfigFile_eq ⟨text, none⟩
  rw [hreturned, configuration, hsplit]
  constructor
  · intro h
    have hrest := List.self_eq_append_right.mp (orNull_injective h)
    intro line hline
    exact Bool.eq_false_iff.mpr (List.filter_eq_nil_iff.mp hrest line hline)
  · intro h
    have hrest : (fromBlank (readLines text)).filter isConfig = [] :=
      List.filter_eq_nil_iff.mpr fun line hline => Bool.eq_false_iff.mp (h line hline)
    rw [hrest, List.append_nil]

/-- The line after a blank one is lost. -/
theorem parseConfigFile_blank :
    parseConfigFile (some ⟨js "a\n\nb", none⟩) ≠ configuration (js "a\n\nb") := by
  decide

end TrashClear.FileUtil
