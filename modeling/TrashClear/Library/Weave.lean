import Mathlib.Data.List.Basic

/-!
# Weaving a short text into a long one

`weave` puts one element of a short list between every two elements of a list
twice as long; `unweave` takes the two lists apart again.  The two are inverse
on lists of matching lengths, so a woven list determines both of its threads.

The last part is about programs that fill a buffer by index, three cells a turn:
`setThree` is one turn of such a loop, and `setThree_append` is the step of its
invariant "the cells before the index are written, the others are untouched".
-/

namespace Weave

variable {α : Type}

/-- `a b` from the long list around each element of the short one. -/
def weave : List α → List α → List α
  | a :: b :: long, s :: short => a :: s :: b :: weave long short
  | _, _ => []

/-- The long and the short thread of a woven list. -/
def unweave : List α → List α × List α
  | a :: s :: b :: rest => (a :: b :: (unweave rest).1, s :: (unweave rest).2)
  | _ => ([], [])

/-- A long thread that matches a non-empty short one starts with two elements. -/
theorem exists_two_of_length {long : List α} {n : Nat} (h : long.length = 2 * (n + 1)) :
    ∃ a b rest, long = a :: b :: rest ∧ rest.length = 2 * n := by
  match long with
  | [] => simp at h
  | [a] =>
      simp only [List.length_cons, List.length_nil] at h
      omega
  | a :: b :: rest =>
      simp only [List.length_cons] at h
      exact ⟨a, b, rest, rfl, by omega⟩

theorem length_weave {long short : List α} (h : long.length = 2 * short.length) :
    (weave long short).length = 3 * short.length := by
  induction short generalizing long with
  | nil => simp [weave]
  | cons s short ih =>
      obtain ⟨a, b, rest, rfl, hrest⟩ := exists_two_of_length h
      simp only [weave, List.length_cons, ih hrest]
      omega

/-- Taking a woven list apart gives the two threads back. -/
theorem unweave_weave {long short : List α} (h : long.length = 2 * short.length) :
    unweave (weave long short) = (long, short) := by
  induction short generalizing long with
  | nil =>
      have hlong : long = [] := by simpa using h
      simp [weave, unweave, hlong]
  | cons s short ih =>
      obtain ⟨a, b, rest, rfl, hrest⟩ := exists_two_of_length h
      simp [weave, unweave, ih hrest]

/-- A woven list has nothing but its threads. -/
theorem mem_or_mem_of_mem_weave {long short : List α} {x : α} (h : x ∈ weave long short) :
    x ∈ long ∨ x ∈ short := by
  fun_induction weave long short with
  | case1 a b long s short ih =>
      rcases List.mem_cons.mp h with rfl | h
      · exact Or.inl List.mem_cons_self
      · rcases List.mem_cons.mp h with rfl | h
        · exact Or.inr List.mem_cons_self
        · rcases List.mem_cons.mp h with rfl | h
          · exact Or.inl (List.mem_cons_of_mem a List.mem_cons_self)
          · rcases ih h with h | h
            · exact Or.inl (List.mem_cons_of_mem a (List.mem_cons_of_mem b h))
            · exact Or.inr (List.mem_cons_of_mem s h)
  | case2 => cases h

/-- Every list of thirds is woven. -/
theorem exists_weave {xs : List α} {n : Nat} (h : xs.length = 3 * n) :
    ∃ long short, long.length = 2 * short.length ∧ short.length = n ∧ xs = weave long short := by
  induction n generalizing xs with
  | zero => exact ⟨[], [], rfl, rfl, List.length_eq_zero_iff.mp h⟩
  | succ n ih =>
      match xs with
      | a :: s :: b :: rest =>
          have hrest : rest.length = 3 * n := by
            simp only [List.length_cons] at h
            omega
          obtain ⟨long, short, hlong, hshort, rfl⟩ := ih hrest
          refine ⟨a :: b :: long, s :: short, ?_, ?_, rfl⟩
          · simp only [List.length_cons]
            omega
          · simp [hshort]
      | [] | [_] | [_, _] =>
          simp only [List.length_cons, List.length_nil] at h
          omega

/-- The short thread stands at the positions 1, 4, 7, ... -/
theorem getD_weave {long short : List α} (h : long.length = 2 * short.length) {i : Nat}
    (hi : i < short.length) (d : α) : (weave long short).getD (3 * i + 1) d = short.getD i d := by
  induction short generalizing long i with
  | nil => simp at hi
  | cons s short ih =>
      obtain ⟨a, b, rest, rfl, hrest⟩ := exists_two_of_length h
      cases i with
      | zero => rfl
      | succ i =>
          have hnext := ih hrest (i := i) (by simpa using hi)
          have hindex : 3 * (i + 1) + 1 = 3 * i + 1 + 3 := by omega
          rw [hindex]
          exact hnext

/-- A woven list determines both threads. -/
theorem weave_injective {long long' short short' : List α}
    (h : long.length = 2 * short.length) (h' : long'.length = 2 * short'.length)
    (heq : weave long short = weave long' short') : long = long' ∧ short = short' := by
  have hpair := congrArg unweave heq
  rw [unweave_weave h, unweave_weave h'] at hpair
  exact ⟨congrArg Prod.fst hpair, congrArg Prod.snd hpair⟩

/-- One turn of a loop that fills a buffer three cells at a time. -/
def setThree (buffer : List α) (i : Nat) (a s b : α) : List α :=
  ((buffer.set i a).set (i + 1) s).set (i + 2) b

/-- A turn at the end of the written part writes the next three cells. -/
theorem setThree_append (written : List α) (x y z : α) (rest : List α) (a s b : α) :
    setThree (written ++ x :: y :: z :: rest) written.length a s b =
      written ++ a :: s :: b :: rest := by
  simp [setThree]

end Weave
