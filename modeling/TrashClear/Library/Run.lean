import Mathlib.Data.List.Nodup

/-!
# Runs that may throw

Rules for programs in `Except ε` (no state) and `EStateM ε σ` (a state that an
exception leaves as it was when it was raised).

* `bind_eq_ok`, `run_bind_ok`, `run_bind_error` say when a sequence returns and
  when it throws.
* `collect read xs` are the values `read` finds in the elements of `xs`; an
  element may hold none, and reading may throw.  A loop that reads every element
  and acts on what it found is, when it completes, the loop over the collected
  values (`foldlM_read_eq_ok`); an element that holds none can be left out
  (`collect_skip`).
* `collect_append` takes such a run apart at a position.
* `foldlM_value_eq_ok` and the lemmas about `mapM` say what a completed pass gives;
  two passes with the same keyed values agree at every element
  (`eq_of_perm_mapM`).
-/

namespace Run

variable {ε α β γ σ : Type}

section Except

@[simp] theorem ok_bind (a : α) (f : α → Except ε β) :
    (Except.ok a >>= f) = f a := rfl

@[simp] theorem error_bind (e : ε) (f : α → Except ε β) :
    (Except.error e >>= f) = Except.error e := rfl

@[simp] theorem pure_eq_ok (a : α) : (pure a : Except ε α) = Except.ok a := rfl

/-- A sequence returns when both parts do. -/
theorem bind_eq_ok {m : Except ε α} {f : α → Except ε β} {b : β} :
    (m >>= f) = .ok b ↔ ∃ a, m = .ok a ∧ f a = .ok b := by
  cases m with
  | error e => simp
  | ok a => simp

theorem map_eq_ok {m : Except ε α} {f : α → β} {b : β} :
    m.map f = .ok b ↔ ∃ a, m = .ok a ∧ f a = b := by
  cases m with
  | error e => simp [Except.map]
  | ok a => simp [Except.map]

theorem mapM_cons_eq_ok {f : α → Except ε β} {x : α} {xs : List α} {bs : List β} :
    (x :: xs).mapM f = .ok bs ↔ ∃ u us, f x = .ok u ∧ xs.mapM f = .ok us ∧ bs = u :: us := by
  simp only [List.mapM_cons, bind_eq_ok, pure_eq_ok, Except.ok.injEq]
  constructor
  · intro h
    obtain ⟨u, hu, us, hus, rfl⟩ := h
    exact ⟨u, us, hu, hus, rfl⟩
  · intro h
    obtain ⟨u, us, hu, hus, rfl⟩ := h
    exact ⟨u, hu, us, hus, rfl⟩

/-- A completed pass gives one value for each element. -/
theorem length_of_mapM_eq_ok {f : α → Except ε β} {xs : List α} {bs : List β}
    (h : xs.mapM f = .ok bs) : bs.length = xs.length := by
  induction xs generalizing bs with
  | nil =>
      simp only [List.mapM_nil, pure_eq_ok, Except.ok.injEq] at h
      subst bs
      rfl
  | cons x xs ih =>
      obtain ⟨u, us, _, hus, rfl⟩ := mapM_cons_eq_ok.mp h
      simp [ih hus]

/-- What is read off each element of the list and off its value agrees along the pass. -/
theorem map_eq_of_forall_mapM {f : α → Except ε β} {g : β → γ} {h : α → γ} {xs : List α}
    {bs : List β} (hfg : ∀ x ∈ xs, ∀ b, f x = .ok b → g b = h x) (hpass : xs.mapM f = .ok bs) :
    bs.map g = xs.map h := by
  induction xs generalizing bs with
  | nil =>
      simp only [List.mapM_nil, pure_eq_ok, Except.ok.injEq] at hpass
      subst bs
      rfl
  | cons x xs ih =>
      obtain ⟨hx, hxs⟩ := List.forall_mem_cons.mp hfg
      obtain ⟨u, us, hu, hus, rfl⟩ := mapM_cons_eq_ok.mp hpass
      rw [List.map_cons, List.map_cons, hx u hu, ih hxs hus]

/-- What is read off each element and off each value agrees along the pass. -/
theorem map_eq_of_mapM_eq_ok {f : α → Except ε β} {g : β → γ} {h : α → γ} {xs : List α}
    {bs : List β} (hfg : ∀ x b, f x = .ok b → g b = h x) (hpass : xs.mapM f = .ok bs) :
    bs.map g = xs.map h :=
  map_eq_of_forall_mapM (fun x _ => hfg x) hpass

/-- What is read off the values that pass a test is read off the elements that pass one. -/
theorem map_filter_eq_of_forall_mapM {f : α → Except ε β} {g : β → γ} {h : α → γ} {P : β → Bool}
    {Q : α → Bool} {xs : List α} {bs : List β}
    (hfg : ∀ x ∈ xs, ∀ b, f x = .ok b → g b = h x ∧ P b = Q x) (hpass : xs.mapM f = .ok bs) :
    (bs.filter P).map g = (xs.filter Q).map h := by
  induction xs generalizing bs with
  | nil =>
      obtain rfl := Except.ok.inj hpass
      rfl
  | cons x xs ih =>
      obtain ⟨hx, hxs⟩ := List.forall_mem_cons.mp hfg
      obtain ⟨u, us, hu, hus, rfl⟩ := mapM_cons_eq_ok.mp hpass
      obtain ⟨hread, htest⟩ := hx u hu
      rw [List.filter_cons, List.filter_cons, htest]
      split
      · rw [List.map_cons, List.map_cons, hread, ih hxs hus]
      · exact ih hxs hus

/-- A pass over elements whose values are known. -/
theorem mapM_eq_ok_map {f : α → Except ε β} {g : α → β} {xs : List α}
    (h : ∀ x ∈ xs, f x = .ok (g x)) : xs.mapM f = .ok (xs.map g) := by
  induction xs with
  | nil => rfl
  | cons x xs ih =>
      obtain ⟨hx, hxs⟩ := List.forall_mem_cons.mp h
      exact mapM_cons_eq_ok.mpr ⟨g x, xs.map g, hx, ih hxs, rfl⟩

/-- A pass throws what one of its elements throws. -/
theorem exists_of_mapM_eq_error {f : α → Except ε β} {xs : List α} {e : ε}
    (h : xs.mapM f = .error e) : ∃ x ∈ xs, f x = .error e := by
  induction xs with
  | nil => cases h
  | cons x xs ih =>
      cases hx : f x with
      | error e' =>
          rw [List.mapM_cons, hx, error_bind] at h
          exact ⟨x, List.mem_cons_self, hx.trans (congrArg _ (Except.error.inj h))⟩
      | ok b =>
          rw [List.mapM_cons, hx, ok_bind] at h
          cases hxs : xs.mapM f with
          | error e' =>
              rw [hxs, error_bind] at h
              obtain ⟨y, hy, hfy⟩ := ih (hxs.trans (congrArg _ (Except.error.inj h)))
              exact ⟨y, List.mem_cons_of_mem _ hy, hfy⟩
          | ok bs =>
              rw [hxs, ok_bind] at h
              cases h

/-- Values for all elements make a pass. -/
theorem exists_mapM_eq_ok {f : α → Except ε β} {xs : List α} :
    (∃ bs, xs.mapM f = .ok bs) ↔ ∀ x ∈ xs, ∃ b, f x = .ok b := by
  induction xs with
  | nil => simp
  | cons x xs ih =>
      simp only [mapM_cons_eq_ok, List.forall_mem_cons, ← ih]
      constructor
      · intro h
        obtain ⟨_, u, us, hu, hus, rfl⟩ := h
        exact ⟨⟨u, hu⟩, us, hus⟩
      · intro h
        obtain ⟨⟨u, hu⟩, us, hus⟩ := h
        exact ⟨u :: us, u, us, hu, hus, rfl⟩

/-- What holds of the value of every element holds of all values of a pass. -/
theorem forall_of_mapM_eq_ok {f : α → Except ε β} {P : β → Prop} {xs : List α} {bs : List β}
    (hf : ∀ x b, f x = .ok b → P b) (h : xs.mapM f = .ok bs) : ∀ b ∈ bs, P b := by
  induction xs generalizing bs with
  | nil =>
      simp only [List.mapM_nil, pure_eq_ok, Except.ok.injEq] at h
      subst bs
      simp
  | cons x xs ih =>
      obtain ⟨u, us, hu, hus, rfl⟩ := mapM_cons_eq_ok.mp h
      exact List.forall_mem_cons.mpr ⟨hf x u hu, ih hus⟩

/-- Every value of a pass comes from an element. -/
theorem exists_of_mem_mapM {f : α → Except ε β} {xs : List α} {bs : List β}
    (h : xs.mapM f = .ok bs) {b : β} (hb : b ∈ bs) : ∃ x ∈ xs, f x = .ok b := by
  induction xs generalizing bs with
  | nil =>
      simp only [List.mapM_nil, pure_eq_ok, Except.ok.injEq] at h
      subst bs
      simp at hb
  | cons x xs ih =>
      obtain ⟨u, us, hu, hus, rfl⟩ := mapM_cons_eq_ok.mp h
      rcases List.mem_cons.mp hb with rfl | hb
      · exact ⟨x, by simp, hu⟩
      · obtain ⟨y, hy, hyb⟩ := ih hus hb
        exact ⟨y, List.mem_cons_of_mem _ hy, hyb⟩

/-- Every element has its value in a pass. -/
theorem exists_mem_of_mapM {f : α → Except ε β} {xs : List α} {bs : List β}
    (h : xs.mapM f = .ok bs) {x : α} (hx : x ∈ xs) : ∃ b ∈ bs, f x = .ok b := by
  induction xs generalizing bs with
  | nil => simp at hx
  | cons y xs ih =>
      obtain ⟨u, us, hu, hus, rfl⟩ := mapM_cons_eq_ok.mp h
      rcases List.mem_cons.mp hx with rfl | hx
      · exact ⟨u, by simp, hu⟩
      · obtain ⟨b, hb, hyb⟩ := ih hus hx
        exact ⟨b, List.mem_cons_of_mem _ hb, hyb⟩

/-- Passes that agree at every element agree. -/
theorem mapM_congr {f g : α → Except ε β} {xs : List α} (h : ∀ x ∈ xs, f x = g x) :
    xs.mapM f = xs.mapM g := by
  induction xs with
  | nil => rfl
  | cons x xs ih =>
      obtain ⟨hx, hxs⟩ := List.forall_mem_cons.mp h
      rw [List.mapM_cons, List.mapM_cons, hx, ih hxs]

/-- Two passes with the same values up to order agree at every element, when the
values have keys that tell the elements apart. -/
theorem eq_of_perm_mapM {f g : α → Except ε β} {key : β → γ} {k : α → γ} {xs : List α}
    {bs cs : List β} (hf : ∀ x b, f x = .ok b → key b = k x)
    (hg : ∀ x b, g x = .ok b → key b = k x) (hnodup : (xs.map k).Nodup)
    (hbs : xs.mapM f = .ok bs) (hcs : xs.mapM g = .ok cs) (hperm : bs.Perm cs) :
    ∀ x ∈ xs, f x = g x := by
  intro x hx
  obtain ⟨b, hb, hfx⟩ := exists_mem_of_mapM hbs hx
  obtain ⟨y, hy, hgy⟩ := exists_of_mem_mapM hcs (hperm.mem_iff.mp hb)
  have hkeys : k y = k x := (hg y b hgy).symm.trans (hf x b hfx)
  obtain rfl := List.inj_on_of_nodup_map hnodup hy hx hkeys
  rw [hfx, hgy]

/-- A pass followed by a map is a pass of the composition. -/
theorem mapM_map_eq_ok {f : α → Except ε β} {g : β → γ} {h : α → Except ε γ} {xs : List α}
    {bs : List β} (hfg : ∀ x b, f x = .ok b → h x = .ok (g b)) (hpass : xs.mapM f = .ok bs) :
    xs.mapM h = .ok (bs.map g) := by
  induction xs generalizing bs with
  | nil =>
      simp only [List.mapM_nil, pure_eq_ok, Except.ok.injEq] at hpass
      subst bs
      rfl
  | cons x xs ih =>
      obtain ⟨u, us, hu, hus, rfl⟩ := mapM_cons_eq_ok.mp hpass
      exact mapM_cons_eq_ok.mpr ⟨g u, us.map g, hfg x u hu, ih hus, rfl⟩

/-- A loop that computes a value at each turn is the loop over the values of a pass. -/
theorem foldlM_value_eq_ok (f : α → Except ε β) (act : σ → β → Except ε σ) {xs : List α}
    {s s' : σ} :
    xs.foldlM (fun s x => f x >>= act s) s = .ok s' ↔
      ∃ bs, xs.mapM f = .ok bs ∧ bs.foldlM act s = .ok s' := by
  induction xs generalizing s with
  | nil => simp
  | cons x xs ih =>
      rw [List.foldlM_cons]
      simp only [bind_eq_ok, mapM_cons_eq_ok, ih]
      constructor
      · intro h
        obtain ⟨t, ⟨b, hb, hact⟩, bs, hbs, hrest⟩ := h
        refine ⟨b :: bs, ⟨b, bs, hb, hbs, rfl⟩, ?_⟩
        rw [List.foldlM_cons, hact]
        exact hrest
      · intro h
        obtain ⟨_, ⟨b, bs, hb, hbs, rfl⟩, hloop⟩ := h
        rw [List.foldlM_cons] at hloop
        obtain ⟨t, hact, hrest⟩ := bind_eq_ok.mp hloop
        exact ⟨t, ⟨b, hb, hact⟩, bs, hbs, hrest⟩

end Except

section Collect

/-- The values found in a list, up to the first exception. -/
def collect (read : α → Except ε (Option β)) : List α → Except ε (List β)
  | [] => pure []
  | x :: xs => do
      match ← read x with
      | none => collect read xs
      | some b => return b :: (← collect read xs)

/-- The value found in an element, if reading it returns one. -/
def found (read : α → Except ε (Option β)) (x : α) : Option β :=
  match read x with
  | .ok (some b) => some b
  | _ => none

theorem found_eq_some {read : α → Except ε (Option β)} {x : α} {b : β} :
    found read x = some b ↔ read x = .ok (some b) := by
  unfold found
  cases h : read x with
  | error e => simp
  | ok o =>
      cases o with
      | none => simp
      | some c => simp

theorem collect_cons_eq_ok {read : α → Except ε (Option β)} {x : α} {xs : List α} {bs : List β} :
    collect read (x :: xs) = .ok bs ↔
      (read x = .ok none ∧ collect read xs = .ok bs) ∨
        ∃ b rest, read x = .ok (some b) ∧ collect read xs = .ok rest ∧ bs = b :: rest := by
  rw [collect]
  cases read x with
  | error e => simp
  | ok o =>
      cases o with
      | none => simp
      | some b =>
          simp only [ok_bind, bind_eq_ok, pure_eq_ok, Except.ok.injEq, reduceCtorEq, false_and,
            Option.some.injEq, false_or]
          constructor
          · intro h
            obtain ⟨rest, hrest, rfl⟩ := h
            exact ⟨b, rest, rfl, hrest, rfl⟩
          · intro h
            obtain ⟨_, rest, rfl, hrest, rfl⟩ := h
            exact ⟨rest, hrest, rfl⟩

/-- A completed collection holds what was found in each element. -/
theorem eq_filterMap_of_collect {read : α → Except ε (Option β)} {xs : List α} {bs : List β}
    (h : collect read xs = .ok bs) : bs = xs.filterMap (found read) := by
  induction xs generalizing bs with
  | nil =>
      simp only [collect, pure_eq_ok, Except.ok.injEq] at h
      simp [← h]
  | cons x xs ih =>
      rcases collect_cons_eq_ok.mp h with ⟨hx, hrest⟩ | ⟨b, rest, hx, hrest, rfl⟩
      · rw [List.filterMap_cons_none (by simp [found, hx])]
        exact ih hrest
      · rw [List.filterMap_cons_some (found_eq_some.mpr hx), ← ih hrest]

/-- What is collected, and when: reading stops at no element. -/
theorem collect_eq_ok_iff {read : α → Except ε (Option β)} {xs : List α} {bs : List β} :
    collect read xs = .ok bs ↔
      (∀ x ∈ xs, ∃ o, read x = .ok o) ∧ bs = xs.filterMap (found read) := by
  constructor
  · intro h
    refine ⟨?_, eq_filterMap_of_collect h⟩
    induction xs generalizing bs with
    | nil => exact fun x hx => absurd hx List.not_mem_nil
    | cons x xs ih =>
        rcases collect_cons_eq_ok.mp h with ⟨hx, hrest⟩ | ⟨b, rest, hx, hrest, rfl⟩
        · exact List.forall_mem_cons.mpr ⟨⟨_, hx⟩, ih hrest⟩
        · exact List.forall_mem_cons.mpr ⟨⟨_, hx⟩, ih hrest⟩
  · intro h
    obtain ⟨hread, rfl⟩ := h
    induction xs with
    | nil => rfl
    | cons x xs ih =>
        obtain ⟨⟨o, hx⟩, hxs⟩ := List.forall_mem_cons.mp hread
        rw [collect_cons_eq_ok]
        cases o with
        | none =>
            refine Or.inl ⟨hx, ?_⟩
            rw [List.filterMap_cons_none (by simp [found, hx])]
            exact ih hxs
        | some b =>
            refine Or.inr ⟨b, _, hx, ih hxs, ?_⟩
            rw [List.filterMap_cons_some (found_eq_some.mpr hx)]

/-- Elements that are all read are collected. -/
theorem collect_map_eq_ok {read : α → Except ε (Option β)} {f : γ → α} {g : γ → β}
    (h : ∀ x, read (f x) = .ok (some (g x))) (xs : List γ) :
    collect read (xs.map f) = .ok (xs.map g) := by
  induction xs with
  | nil => rfl
  | cons x xs ih =>
      rw [List.map_cons, List.map_cons]
      exact collect_cons_eq_ok.mpr (Or.inr ⟨g x, _, h x, ih, rfl⟩)

/-- A collected value was found in some element. -/
theorem exists_of_mem_collect {read : α → Except ε (Option β)} {xs : List α} {bs : List β}
    (h : collect read xs = .ok bs) {b : β} (hb : b ∈ bs) :
    ∃ x ∈ xs, read x = .ok (some b) := by
  rw [eq_filterMap_of_collect h] at hb
  obtain ⟨x, hx, hfound⟩ := List.mem_filterMap.mp hb
  exact ⟨x, hx, found_eq_some.mp hfound⟩

/-- Nothing is collected when no element holds anything. -/
theorem collect_eq_nil_iff {read : α → Except ε (Option β)} {xs : List α} :
    collect read xs = .ok [] ↔ ∀ x ∈ xs, read x = .ok none := by
  induction xs with
  | nil => simp [collect]
  | cons x xs ih => simp [collect_cons_eq_ok, ih]

/-- Collecting from a list completes when it does for both halves. -/
theorem collect_append {read : α → Except ε (Option β)} {xs ys : List α} {bs : List β} :
    collect read (xs ++ ys) = .ok bs ↔
      ∃ us vs, collect read xs = .ok us ∧ collect read ys = .ok vs ∧ bs = us ++ vs := by
  induction xs generalizing bs with
  | nil => simp [collect, eq_comm]
  | cons x xs ih =>
      rw [List.cons_append, collect_cons_eq_ok]
      constructor
      · intro h
        rcases h with ⟨hx, hrest⟩ | ⟨b, rest, hx, hrest, rfl⟩
        · obtain ⟨us, vs, hus, hvs, rfl⟩ := ih.mp hrest
          exact ⟨us, vs, collect_cons_eq_ok.mpr (Or.inl ⟨hx, hus⟩), hvs, rfl⟩
        · obtain ⟨us, vs, hus, hvs, rfl⟩ := ih.mp hrest
          exact ⟨b :: us, vs, collect_cons_eq_ok.mpr (Or.inr ⟨b, us, hx, hus, rfl⟩), hvs, rfl⟩
      · intro h
        obtain ⟨us, vs, hus, hvs, rfl⟩ := h
        rcases collect_cons_eq_ok.mp hus with ⟨hx, hrest⟩ | ⟨b, rest, hx, hrest, rfl⟩
        · exact Or.inl ⟨hx, ih.mpr ⟨us, vs, hrest, hvs, rfl⟩⟩
        · exact Or.inr ⟨b, rest ++ vs, hx, ih.mpr ⟨rest, vs, hrest, hvs, rfl⟩, rfl⟩

/-- One turn of a loop that reads an element and acts on what it found. -/
def readThen (read : α → Except ε (Option β)) (act : σ → β → Except ε σ) (s : σ) (x : α) :
    Except ε σ := do
  match ← read x with
  | none => return s
  | some b => act s b

/-- What every turn of a loop keeps is kept by the loop. -/
theorem foldlM_keeps {P : σ → Prop} {act : σ → α → Except ε σ}
    (hact : ∀ s x s', act s x = .ok s' → P s → P s') {xs : List α} {s s' : σ}
    (h : xs.foldlM act s = .ok s') (hs : P s) : P s' := by
  induction xs generalizing s with
  | nil =>
      obtain rfl := Except.ok.inj h
      exact hs
  | cons x xs ih =>
      rw [List.foldlM_cons] at h
      obtain ⟨s₁, hx, hxs⟩ := bind_eq_ok.mp h
      exact ih hxs (hact s x s₁ hx hs)

/-- **A completed reading loop is the loop over the collected values.** -/
theorem foldlM_read_eq_ok {read : α → Except ε (Option β)} {act : σ → β → Except ε σ}
    {xs : List α} {s s' : σ} :
    xs.foldlM (readThen read act) s = .ok s' ↔
      ∃ bs, collect read xs = .ok bs ∧ bs.foldlM act s = .ok s' := by
  induction xs generalizing s with
  | nil => simp [collect]
  | cons x xs ih =>
      rw [List.foldlM_cons, bind_eq_ok]
      constructor
      · intro h
        obtain ⟨t, hstep, hrest⟩ := h
        obtain ⟨bs, hbs, hacts⟩ := ih.mp hrest
        unfold readThen at hstep
        obtain ⟨o, hx, hact⟩ := bind_eq_ok.mp hstep
        cases o with
        | none =>
            simp only [pure_eq_ok, Except.ok.injEq] at hact
            subst t
            exact ⟨bs, collect_cons_eq_ok.mpr (Or.inl ⟨hx, hbs⟩), hacts⟩
        | some b =>
            refine ⟨b :: bs, collect_cons_eq_ok.mpr (Or.inr ⟨b, bs, hx, hbs, rfl⟩), ?_⟩
            rw [List.foldlM_cons, bind_eq_ok]
            exact ⟨t, hact, hacts⟩
      · intro h
        obtain ⟨bs, hbs, hacts⟩ := h
        rcases collect_cons_eq_ok.mp hbs with ⟨hx, hrest⟩ | ⟨b, rest, hx, hrest, rfl⟩
        · exact ⟨s, by simp [readThen, hx], ih.mpr ⟨bs, hrest, hacts⟩⟩
        · rw [List.foldlM_cons, bind_eq_ok] at hacts
          obtain ⟨t, hact, hacts⟩ := hacts
          exact ⟨t, by simpa [readThen, hx] using hact, ih.mpr ⟨rest, hrest, hacts⟩⟩

/-- An element that holds nothing can be left out. -/
theorem collect_skip {read : α → Except ε (Option β)} {x : α} (hx : read x = .ok none)
    (xs ys : List α) : collect read (xs ++ x :: ys) = collect read (xs ++ ys) := by
  induction xs with
  | nil => simp [collect, hx]
  | cons y xs ih => rw [List.cons_append, List.cons_append, collect, collect, ih]

end Collect

section Refusal

/-- Change a state by every element in turn, up to the first refusal: the state that
is left, and the refusal. -/
def advance (f : α → σ → Except ε σ) : List α → σ → σ × Option ε
  | [], s => (s, none)
  | x :: xs, s =>
      match f x s with
      | .ok s' => advance f xs s'
      | .error e => (s, some e)

/-- The number of elements before the first refusal. -/
def acceptedCount (f : α → σ → Except ε σ) : List α → σ → Nat
  | [], _ => 0
  | x :: xs, s =>
      match f x s with
      | .ok s' => acceptedCount f xs s' + 1
      | .error _ => 0

theorem acceptedCount_le_length (f : α → σ → Except ε σ) (xs : List α) (s : σ) :
    acceptedCount f xs s ≤ xs.length := by
  induction xs generalizing s with
  | nil => exact Nat.le_refl 0
  | cons x xs ih =>
      unfold acceptedCount
      cases f x s with
      | error e => exact Nat.zero_le _
      | ok s' => exact Nat.succ_le_succ (ih s')

/-- Without a refusal, every element is accepted. -/
theorem acceptedCount_eq_length {f : α → σ → Except ε σ} {xs : List α} {s : σ}
    (h : (advance f xs s).2 = none) : acceptedCount f xs s = xs.length := by
  induction xs generalizing s with
  | nil => rfl
  | cons x xs ih =>
      unfold advance at h
      unfold acceptedCount
      cases hx : f x s with
      | error e => simp [hx] at h
      | ok s' =>
          rw [hx] at h
          exact congrArg (· + 1) (ih h)

/-- The log of the accepted elements: it grows with the state. -/
def logged {ι : Type} (f : α → σ → Except ε σ) (x : ι × α) (s : σ × List ι) :
    Except ε (σ × List ι) :=
  (f x.2 s.1).map fun s' => (s', s.2 ++ [x.1])

/-- A log changes nothing else, and holds the names of the accepted elements. -/
theorem advance_logged {ι : Type} (f : α → σ → Except ε σ) (xs : List (ι × α)) (s : σ)
    (log : List ι) :
    advance (logged f) xs (s, log) =
      (((advance f (xs.map Prod.snd) s).1,
        log ++ (xs.map Prod.fst).take (acceptedCount f (xs.map Prod.snd) s)),
        (advance f (xs.map Prod.snd) s).2) := by
  induction xs generalizing s log with
  | nil => simp [advance]
  | cons x xs ih =>
      simp only [List.map_cons, advance, acceptedCount, logged]
      cases f x.2 s with
      | error e => simp [Except.map]
      | ok s' =>
          simp only [Except.map]
          rw [ih]
          simp

end Refusal

section State

/-- The state that a run leaves, whether it returns or throws. -/
def left : EStateM.Result ε σ α → σ
  | .ok _ s => s
  | .error _ s => s

/-- What a run answers its caller. -/
def answer : EStateM.Result ε σ α → Except ε α
  | .ok a _ => .ok a
  | .error e _ => .error e

/-- An `Except` run inside a stateful one: it leaves the state alone. -/
def attempt (m : Except ε α) : EStateM ε σ α := fun s =>
  match m with
  | .ok a => .ok a s
  | .error e => .error e s

theorem run_attempt_ok {m : Except ε α} {s s' : σ} {a : α} :
    (attempt m : EStateM ε σ α) s = .ok a s' ↔ m = .ok a ∧ s' = s := by
  unfold attempt
  cases m with
  | error e => simp
  | ok b => simp [eq_comm]

/-- What a run returns, if it does.  An exception is dropped. -/
def caught (m : EStateM ε σ α) : EStateM ε σ (Option α) := fun s =>
  match m s with
  | .ok a s' => .ok (some a) s'
  | .error _ s' => .ok none s'

theorem run_caught_of_ok {m : EStateM ε σ α} {s s' : σ} {a : α} (h : m s = .ok a s') :
    caught m s = .ok (some a) s' := by
  unfold caught
  rw [h]

theorem run_caught_of_error {m : EStateM ε σ α} {s s' : σ} {e : ε} (h : m s = .error e s') :
    caught m s = .ok none s' := by
  unfold caught
  rw [h]

/-- Run a program, and catch its exception. -/
def recorded (m : EStateM ε σ α) : EStateM ε σ (Except ε α) := fun s =>
  .ok (answer (m s)) (left (m s))

theorem run_recorded_of_ok {m : EStateM ε σ α} {s s' : σ} {a : α} (h : m s = .ok a s') :
    recorded m s = .ok (.ok a) s' := by
  unfold recorded
  rw [h]
  rfl

theorem run_recorded_of_error {m : EStateM ε σ α} {s s' : σ} {e : ε} (h : m s = .error e s') :
    recorded m s = .ok (.error e) s' := by
  unfold recorded
  rw [h]
  rfl

theorem left_attempt (m : Except ε α) (s : σ) : left ((attempt m : EStateM ε σ α) s) = s := by
  cases m with
  | error e => rfl
  | ok a => rfl

theorem run_pure (a : α) (s : σ) : (pure a : EStateM ε σ α) s = .ok a s := rfl

/-- A sequence returns when both parts do. -/
theorem run_bind_ok {m : EStateM ε σ α} {f : α → EStateM ε σ β} {s s'' : σ} {b : β} :
    (m >>= f) s = .ok b s'' ↔ ∃ a s', m s = .ok a s' ∧ f a s' = .ok b s'' := by
  show EStateM.bind m f s = .ok b s'' ↔ _
  unfold EStateM.bind
  cases m s with
  | ok a s' => simp
  | error e s' => simp

/-- After a part that returns comes the next one. -/
theorem run_bind_of_ok {m : EStateM ε σ α} {f : α → EStateM ε σ β} {s s' : σ} {a : α}
    (h : m s = .ok a s') : (m >>= f) s = f a s' := by
  show EStateM.bind m f s = _
  unfold EStateM.bind
  rw [h]

/-- After a part that throws comes nothing. -/
theorem run_bind_of_error {m : EStateM ε σ α} {f : α → EStateM ε σ β} {s s' : σ} {e : ε}
    (h : m s = .error e s') : (m >>= f) s = .error e s' := by
  show EStateM.bind m f s = _
  unfold EStateM.bind
  rw [h]

/-- What follows depends on the outcome of the first part alone. -/
theorem run_bind_congr {m m' : EStateM ε σ α} {f : α → EStateM ε σ β} {s s' : σ}
    (h : m s = m' s') : (m >>= f) s = (m' >>= f) s' := by
  show EStateM.bind m f s = EStateM.bind m' f s'
  unfold EStateM.bind
  rw [h]

/-- A sequence throws when its first part does, or its second after it. -/
theorem run_bind_error {m : EStateM ε σ α} {f : α → EStateM ε σ β} {s s'' : σ} {e : ε} :
    (m >>= f) s = .error e s'' ↔
      m s = .error e s'' ∨ ∃ a s', m s = .ok a s' ∧ f a s' = .error e s'' := by
  show EStateM.bind m f s = .error e s'' ↔ _
  unfold EStateM.bind
  cases m s with
  | ok a s' => simp
  | error e' s' => simp

/-- Reading the state changes nothing. -/
theorem run_get_bind (f : σ → EStateM ε σ β) (s : σ) :
    ((get : EStateM ε σ σ) >>= f) s = f s s := rfl

/-- A loop is its first turn and then the rest. -/
theorem run_forM_cons (f : α → EStateM ε σ PUnit) (x : α) (xs : List α) (s : σ) :
    (x :: xs).forM f s = (f x >>= fun _ => xs.forM f) s := rfl

/-- A loop over a list in two parts. -/
theorem run_forM_append (f : α → EStateM ε σ PUnit) (xs ys : List α) (s : σ) :
    (xs ++ ys).forM f s = (xs.forM f >>= fun _ => ys.forM f) s := by
  have h : forM (xs ++ ys) f = (do forM xs f; forM ys f) := List.forM_append
  exact congrFun h s

/-- A loop over what a function makes of a list. -/
theorem run_forM_map (g : γ → α) (f : α → EStateM ε σ PUnit) (xs : List γ) (s : σ) :
    (xs.map g).forM f s = (xs.forM fun x => f (g x)) s := by
  have h : forM (xs.map g) f = forM xs fun x => f (g x) := List.forM_map
  exact congrFun h s

end State

end Run
