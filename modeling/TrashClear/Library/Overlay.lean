import TrashClear.Library.Disk

/-!
# Overlaying one directory with another

`Overlay a b broken fs fs'` says how the tree at `a` was laid under the tree at `b`: what
was there stays, and what is new at `b` is what `a` has at the same place, directories on
the way to `b` apart.  One file may be `broken`: it has another content.

Overlays of two trees that are apart can be done one entry after the other
(`Overlay.trans`), and they leave the tree at `a` alone (`Overlay.source`).
-/

namespace Disk

variable {α β : Type} [DecidableEq α]

/-- Neither path is on the way to the other. -/
def Apart (a b : Path α) : Prop := ¬ a <+: b ∧ ¬ b <+: a

omit [DecidableEq α] in
theorem Apart.append {a b : Path α} (h : Apart a b) (u v : Path α) : Apart (a ++ u) (b ++ v) := by
  have hnot {a b : Path α} (h : Apart a b) (u v : Path α) : ¬ a ++ u <+: b ++ v := by
    intro hbegins
    have ha : a <+: b ++ v := (List.prefix_append a u).trans hbegins
    rcases List.prefix_or_prefix_of_prefix ha (List.prefix_append b v) with hab | hba
    · exact h.1 hab
    · exact h.2 hba
  exact ⟨hnot h u v, hnot ⟨h.2, h.1⟩ v u⟩

omit [DecidableEq α] in
theorem Apart.ne {a b : Path α} (h : Apart a b) (u v : Path α) : a ++ u ≠ b ++ v := by
  intro heq
  exact (h.append u v).1 (heq ▸ List.prefix_rfl)

namespace FileSystem

/-- Where a new entry comes from: it is a directory on the way to `b`, an entry of the
tree at `a`, or the broken file. -/
inductive Origin (a b : Path α) (broken : Option (Path α × β)) (fs : FileSystem α β) :
    Path α → Entry β → Prop
  | onTheWay (q : Path α) : q <+: b → q ≠ b → Origin a b broken fs q .dir
  | source (w : Path α) (e : Entry β) : fs.lookup (a ++ w) = some e →
      Origin a b broken fs (b ++ w) e
  | broken (w : Path α) (c : β) : broken = some (b ++ w, c) →
      Origin a b broken fs (b ++ w) (.file c)

structure Overlay (a b : Path α) (broken : Option (Path α × β)) (fs fs' : FileSystem α β) :
    Prop where
  keeps : fs.Extends fs'
  adds : ∀ q e, fs.lookup q = none → fs'.lookup q = some e → Origin a b broken fs q e

variable {fs fs' fs'' : FileSystem α β} {a b : Path α} {broken : Option (Path α × β)}

theorem Overlay.refl (a b : Path α) (fs : FileSystem α β) : Overlay a b none fs fs := by
  refine ⟨Extends.refl fs, fun q e hnone hsome => ?_⟩
  rw [hnone] at hsome
  cases hsome

/-- An overlay leaves the tree it takes from alone. -/
theorem Overlay.source (h : Overlay a b broken fs fs') (hapart : Apart a b) (w : Path α) :
    fs'.lookup (a ++ w) = fs.lookup (a ++ w) := by
  cases hold : fs.lookup (a ++ w) with
  | some e => exact h.keeps _ e hold
  | none =>
      by_contra hnew
      obtain ⟨e, he⟩ := Option.ne_none_iff_exists'.mp hnew
      have horigin := h.adds _ e hold he
      generalize hq : a ++ w = q at horigin
      cases horigin with
      | onTheWay _ hbegins hne =>
          exact hapart.1 ((List.prefix_append a w).trans (hq ▸ hbegins))
      | source w' _ hsource => exact hapart.ne w w' hq
      | broken w' c hbroken => exact hapart.ne w w' hq

theorem Origin.of_none {q : Path α} {e : Entry β} (h : Origin a b none fs q e) :
    Origin a b broken fs q e := by
  cases h with
  | onTheWay _ hbegins hne => exact .onTheWay q hbegins hne
  | source w _ hsource => exact .source w e hsource
  | broken w c hbroken => cases hbroken

theorem Origin.top {e : Entry β} (ha : fs.lookup a = some e) : Origin a b broken fs b e := by
  have h : Origin a b broken fs (b ++ []) e := .source [] e (by rwa [List.append_nil])
  rwa [List.append_nil] at h

theorem Origin.top_broken (c : β) : Origin a b (some (b, c)) fs b (.file c) := by
  have h : Origin a b (some (b, c)) fs (b ++ []) (.file c) :=
    .broken [] c (by rw [List.append_nil])
  rwa [List.append_nil] at h

/-- What comes from an entry in a directory comes from the directory. -/
theorem Origin.outer {x : α} {q : Path α} {e : Entry β}
    (h : Origin (a ++ [x]) (b ++ [x]) broken fs q e) (ha : fs.lookup a = some .dir) :
    Origin a b broken fs q e := by
  cases h with
  | onTheWay _ hbegins hne =>
      rcases List.prefix_concat_iff.mp hbegins with heq | hbegins
      · exact absurd heq hne
      · by_cases hb : q = b
        · rw [hb]
          exact .top ha
        · exact .onTheWay q hbegins hb
  | source w _ hsource =>
      rw [List.append_assoc] at hsource ⊢
      exact .source _ e hsource
  | broken w c hbroken =>
      rw [List.append_assoc] at hbroken ⊢
      exact .broken _ c hbroken

/-- An overlay with one entry of the tree at `a` goes on with the next. -/
theorem Overlay.trans {x : α} (h : Overlay a b none fs fs') (hapart : Apart a b)
    (hx : fs.lookup (a ++ [x]) ≠ none)
    (h' : Overlay (a ++ [x]) (b ++ [x]) broken fs' fs'') : Overlay a b broken fs fs'' := by
  refine ⟨h.keeps.trans h'.keeps, fun q e hnone hsome => ?_⟩
  cases hmiddle : fs'.lookup q with
  | some d => exact (h.adds q e hnone (h'.keeps.lookup_eq hmiddle hsome)).of_none
  | none =>
      -- the tree at `a` is still the one that the overlay started with
      have horigin : Origin (a ++ [x]) (b ++ [x]) broken fs q e := by
        have hadded := h'.adds q e hmiddle hsome
        cases hadded with
        | onTheWay _ hbegins hne => exact .onTheWay q hbegins hne
        | source w _ hsource =>
            rw [List.append_assoc, h.source hapart, ← List.append_assoc] at hsource
            exact .source w e hsource
        | broken w c hbroken => exact .broken w c hbroken
      exact horigin.outer (parent_dir hx)

/-- What is at `b` or below afterwards was there, or comes from the same place at `a`,
unless it is broken. -/
theorem Overlay.target (h : Overlay a b broken fs fs') {w : Path α} {e : Entry β}
    (hsome : fs'.lookup (b ++ w) = some e) :
    fs.lookup (b ++ w) = some e ∨
      fs.lookup (b ++ w) = none ∧
        (fs.lookup (a ++ w) = some e ∨ ∃ c, broken = some (b ++ w, c) ∧ e = .file c) := by
  cases hold : fs.lookup (b ++ w) with
  | some d => exact Or.inl (hold.symm.trans (h.keeps.lookup_eq hold hsome))
  | none =>
      refine Or.inr ⟨rfl, ?_⟩
      have horigin := h.adds _ e hold hsome
      generalize hq : b ++ w = q at horigin
      cases horigin with
      | onTheWay _ hbegins hne =>
          have hroot : b ++ w = b := by
            apply List.IsPrefix.eq_of_length_le (hq ▸ hbegins)
            rw [List.length_append]
            omega
          exact absurd (hq.symm.trans hroot) hne
      | source w' _ hsource =>
          rw [List.append_cancel_left hq]
          exact Or.inl hsource
      | broken w' c hbroken => exact Or.inr ⟨c, hbroken, rfl⟩

/-- The directory of an overlay is made first. -/
theorem overlay_mkdirs (ha : fs.lookup a = some .dir) : Overlay a b none fs (fs.mkdirs b) := by
  refine ⟨extends_mkdirs fs b, fun q e hnone hsome => ?_⟩
  obtain ⟨rfl, hbegins⟩ := mkdirs_new hnone hsome
  by_cases hb : q = b
  · rw [hb]
    exact .top ha
  · exact .onTheWay q hbegins hb

/-- A new file is an overlay. -/
theorem Writes.overlay {c : β} (hnone : fs.lookup b = none) (h : fs.Writes b c fs')
    (horigin : Origin a b broken fs b (.file c)) : Overlay a b broken fs fs' := by
  refine ⟨h.extends hnone, fun q e hnew hsome => ?_⟩
  obtain ⟨rfl, rfl⟩ := h.eq_of_new hnew hsome
  exact horigin

end FileSystem

end Disk
