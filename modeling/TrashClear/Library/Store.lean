import TrashClear.Library.Run

/-!
# Stores with transactions

Two disciplines of writing to a durable store, over an arbitrary content `σ`.

* A `Connection` has one transaction pending at any time: `update` changes what
  the connection sees, `commit` makes it durable.
* A `Session` writes through, unless transactions are begun.  They nest: only the
  outermost `finish` makes the changes durable, and only when every level was
  marked successful.

`Acts v P m f` says that a completed run of `m` does to the content seen what `f`
does, and nothing else; the rules `Acts.bind`, `Acts.forM`, `acts_attempt_bind`
turn a program over either store into a plain function on contents.  `Keeps m`
says that nothing becomes durable, whatever the outcome: a body that keeps,
followed by a commit, is all or nothing (`Keeps.allOrNothing`).
-/

namespace Store

open Run

variable {ε S σ α β : Type}

/-- The part of a state that a program works on. -/
structure View (S σ : Type) where
  get : S → σ
  set : σ → S → S
  get_set : ∀ w s, get (set w s) = w
  set_set : ∀ w w' s, set w (set w' s) = set w s
  set_get : ∀ s, set (get s) s = s

/-- Starting where `P` holds, `m` completes exactly when `f` does, and leaves
what `f` computes in place of the viewed part. -/
def Acts (v : View S σ) (P : S → Prop) (m : EStateM ε S Unit) (f : σ → Except ε σ) : Prop :=
  ∀ s, P s → ∀ s', m s = .ok () s' ↔ ∃ w, f (v.get s) = .ok w ∧ s' = v.set w s

section Acts

variable {v : View S σ} {P : S → Prop}

/-- Doing nothing. -/
theorem acts_pure : Acts v P (pure () : EStateM ε S Unit) Except.ok := by
  intro s _ s'
  rw [run_pure]
  simp only [EStateM.Result.ok.injEq, true_and, Except.ok.injEq]
  constructor
  · intro h
    obtain rfl := h
    exact ⟨_, rfl, (v.set_get _).symm⟩
  · intro h
    obtain ⟨w, rfl, rfl⟩ := h
    exact (v.set_get s).symm

/-- One program after another. -/
theorem Acts.bind (hP : ∀ w s, P s → P (v.set w s)) {m n : EStateM ε S Unit}
    {f g : σ → Except ε σ} (hm : Acts v P m f) (hn : Acts v P n g) :
    Acts v P (m >>= fun _ => n) (fun s => f s >>= g) := by
  intro s hs s''
  rw [run_bind_ok]
  simp only [bind_eq_ok]
  constructor
  · intro h
    obtain ⟨_, s', hfirst, hsecond⟩ := h
    obtain ⟨w, hw, rfl⟩ := (hm s hs s').mp hfirst
    obtain ⟨w', hw', rfl⟩ := (hn _ (hP w s hs) s'').mp hsecond
    rw [v.get_set] at hw'
    exact ⟨w', ⟨w, hw, hw'⟩, v.set_set w' w s⟩
  · intro h
    obtain ⟨w', ⟨w, hw, hw'⟩, rfl⟩ := h
    refine ⟨(), v.set w s, (hm s hs _).mpr ⟨w, hw, rfl⟩, ?_⟩
    refine (hn _ (hP w s hs) _).mpr ⟨w', ?_, (v.set_set w' w s).symm⟩
    rw [v.get_set]
    exact hw'

/-- A loop acts as the fold of what its turns do. -/
theorem Acts.forM (hP : ∀ w s, P s → P (v.set w s)) {m : α → EStateM ε S Unit}
    {f : α → σ → Except ε σ} (hm : ∀ x, Acts v P (m x) (f x)) (xs : List α) :
    Acts v P (xs.forM m) (fun s => xs.foldlM (fun s x => f x s) s) := by
  induction xs with
  | nil => exact acts_pure
  | cons x xs ih =>
      simp only [List.foldlM_cons]
      exact Acts.bind hP (hm x) ih

/-- A computation without effects in front. -/
theorem acts_attempt_bind {e : Except ε α} {k : α → EStateM ε S Unit}
    {f : α → σ → Except ε σ} (hk : ∀ a, e = .ok a → Acts v P (k a) (f a)) :
    Acts v P (attempt e >>= k) (fun s => e >>= fun a => f a s) := by
  intro s hs s'
  cases e with
  | error e' =>
      rw [run_bind_ok]
      simp only [run_attempt_ok, reduceCtorEq, false_and, exists_false, error_bind]
  | ok a =>
      rw [run_bind_ok]
      simp only [run_attempt_ok, Except.ok.injEq, ok_bind]
      rw [← hk a rfl s hs s']
      constructor
      · intro h'
        obtain ⟨_, _, ⟨rfl, rfl⟩, h⟩ := h'
        exact h
      · intro h
        exact ⟨a, s, ⟨rfl, rfl⟩, h⟩

end Acts

/-! ## One pending transaction -/

/-- What is durable, and what the connection sees. -/
structure Connection (σ : Type) where
  durable : σ
  working : σ

namespace Connection

/-- A new connection sees what is durable. -/
def opened (s : σ) : Connection σ := ⟨s, s⟩

/-- What the connection sees. -/
def view : View (Connection σ) σ where
  get c := c.working
  set w c := { c with working := w }
  get_set _ _ := rfl
  set_set _ _ _ := rfl
  set_get _ := rfl

/-- Change what the connection sees; a failed change changes nothing. -/
def update (f : σ → Except ε σ) : EStateM ε (Connection σ) Unit := fun c =>
  match f c.working with
  | .ok w => .ok () { c with working := w }
  | .error e => .error e c

/-- Check what the connection sees. -/
def check (f : σ → Except ε α) : EStateM ε (Connection σ) α := fun c =>
  match f c.working with
  | .ok a => .ok a c
  | .error e => .error e c

/-- Make the pending changes durable. -/
def commit : EStateM ε (Connection σ) Unit := fun c => .ok () { c with durable := c.working }

/-- Changes in a row, up to the first that is refused: those before it stay. -/
theorem run_forM_update (f : α → σ → Except ε σ) (xs : List α) (c : Connection σ) :
    (xs.forM fun x => update (f x)) c =
      match (advance f xs c.working).2 with
      | none => .ok () { c with working := (advance f xs c.working).1 }
      | some e => .error e { c with working := (advance f xs c.working).1 } := by
  induction xs generalizing c with
  | nil => rfl
  | cons x xs ih =>
      have hcons : ((x :: xs).forM fun x => update (f x)) =
          (update (f x) >>= fun _ => xs.forM fun x => update (f x)) := rfl
      rw [hcons]
      unfold advance
      cases hx : f x c.working with
      | error e =>
          have hthrow : update (f x) c = .error e c := by simp [update, hx]
          exact run_bind_error.mpr (Or.inl hthrow)
      | ok w =>
          have hdone : update (f x) c = .ok () { c with working := w } := by simp [update, hx]
          rw [run_bind_of_ok hdone, ih]

theorem acts_update (f : σ → Except ε σ) : Acts view (fun _ => True) (update f) f := by
  intro c _ c'
  show (match f c.working with | .ok w => _ | .error e => _) = _ ↔ ∃ w, f c.working = _ ∧ _
  cases f c.working with
  | error e => simp
  | ok w =>
      simp only [EStateM.Result.ok.injEq, true_and, Except.ok.injEq, exists_eq_left']
      exact eq_comm

/-- A check in front: its answer is read off the content. -/
theorem acts_check_bind {q : σ → Except ε α} {k : α → EStateM ε (Connection σ) Unit}
    {f : α → σ → Except ε σ} (hk : ∀ a, Acts view (fun _ => True) (k a) (f a)) :
    Acts view (fun _ => True) (check q >>= k) (fun w => q w >>= fun a => f a w) := by
  intro c _ c'
  rw [run_bind_ok]
  have hcheck (a : α) (c₁ : Connection σ) :
      check q c = .ok a c₁ ↔ q c.working = .ok a ∧ c₁ = c := by
    unfold check
    cases q c.working with
    | error e => simp
    | ok b => simp [eq_comm]
  simp only [hcheck, bind_eq_ok]
  constructor
  · intro h'
    obtain ⟨a, c₁, ⟨ha, hc⟩, h⟩ := h'
    rw [hc] at h
    obtain ⟨w, hw, rfl⟩ := (hk a c trivial c').mp h
    exact ⟨w, ⟨a, ha, hw⟩, rfl⟩
  · intro h'
    obtain ⟨w, ⟨a, ha, hw⟩, rfl⟩ := h'
    exact ⟨a, c, ⟨ha, rfl⟩, (hk a c trivial _).mpr ⟨w, hw, rfl⟩⟩

/-- Nothing becomes durable, whether the program returns or throws. -/
def Keeps (m : EStateM ε (Connection σ) α) : Prop :=
  ∀ c, (∀ a c', m c = .ok a c' → c'.durable = c.durable) ∧
    ∀ e c', m c = .error e c' → c'.durable = c.durable

theorem keeps_pure (a : α) : Keeps (pure a : EStateM ε (Connection σ) α) := by
  intro c
  refine ⟨?_, ?_⟩
  · intro _ c' h
    cases h
    rfl
  · intro _ c' h
    cases h

theorem keeps_update (f : σ → Except ε σ) : Keeps (update f) := by
  intro c
  unfold update
  cases f c.working with
  | error e => simp +contextual [eq_comm]
  | ok w =>
      refine ⟨?_, by simp⟩
      intro _ c' h
      cases h
      rfl

theorem keeps_check (f : σ → Except ε α) : Keeps (check f) := by
  intro c
  unfold check
  cases f c.working with
  | error e => simp +contextual [eq_comm]
  | ok a => simp +contextual [eq_comm]

theorem keeps_attempt (m : Except ε α) : Keeps (attempt m : EStateM ε (Connection σ) α) := by
  intro c
  unfold attempt
  cases m with
  | error e => simp +contextual [eq_comm]
  | ok a => simp +contextual [eq_comm]

theorem Keeps.bind {m : EStateM ε (Connection σ) α} {f : α → EStateM ε (Connection σ) β}
    (hm : Keeps m) (hf : ∀ a, Keeps (f a)) : Keeps (m >>= f) := by
  intro c
  refine ⟨?_, ?_⟩
  · intro b c'' h
    obtain ⟨a, c', hfirst, hsecond⟩ := run_bind_ok.mp h
    rw [(hf a c').1 b c'' hsecond, (hm c).1 a c' hfirst]
  · intro e c'' h
    rcases run_bind_error.mp h with hfirst | ⟨a, c', hfirst, hsecond⟩
    · exact (hm c).2 e c'' hfirst
    · rw [(hf a c').2 e c'' hsecond, (hm c).1 a c' hfirst]

theorem Keeps.forM {m : α → EStateM ε (Connection σ) Unit} (hm : ∀ x, Keeps (m x))
    (xs : List α) : Keeps (xs.forM m) := by
  induction xs with
  | nil => exact keeps_pure ()
  | cons x xs ih => exact Keeps.bind (hm x) (fun _ => ih)

/-- A body that keeps, and a commit: what became durable is what the body left,
or nothing. -/
theorem Keeps.allOrNothing {m : EStateM ε (Connection σ) Unit} (hm : Keeps m)
    {c c' : Connection σ} :
    (∀ e, (m >>= fun _ => commit) c = .error e c' → c'.durable = c.durable) ∧
      ((m >>= fun _ => commit) c = .ok () c' → c'.durable = c'.working) := by
  refine ⟨?_, ?_⟩
  · intro e h
    rcases run_bind_error.mp h with hfirst | ⟨_, c₁, _, hsecond⟩
    · exact (hm c).2 e c' hfirst
    · cases hsecond
  · intro h
    obtain ⟨_, c₁, _, hsecond⟩ := run_bind_ok.mp h
    cases hsecond
    rfl

/-- A completed body and a commit make what the body computes durable. -/
theorem run_commit {m : EStateM ε (Connection σ) Unit} {f : σ → Except ε σ}
    (hm : Acts view (fun _ => True) m f) {c c' : Connection σ} :
    (m >>= fun _ => commit) c = .ok () c' ↔ ∃ w, f c.working = .ok w ∧ c' = opened w := by
  rw [run_bind_ok]
  constructor
  · intro h
    obtain ⟨_, c₁, hfirst, hsecond⟩ := h
    obtain ⟨w, hw, rfl⟩ := (hm c trivial c₁).mp hfirst
    cases hsecond
    exact ⟨w, hw, rfl⟩
  · intro h
    obtain ⟨w, hw, rfl⟩ := h
    exact ⟨(), _, (hm c trivial _).mpr ⟨w, hw, rfl⟩, rfl⟩

end Connection

/-! ## Nested transactions -/

/-- One begun transaction. -/
structure Level where
  marked : Bool
  childFailed : Bool

/-- What is durable, what the session sees, and the begun transactions, the
innermost first. -/
structure Session (σ : Type) where
  durable : σ
  working : σ
  levels : List Level

namespace Session

/-- A session without a transaction. -/
def opened (s : σ) : Session σ := ⟨s, s, []⟩

def view : View (Session σ) σ where
  get s := s.working
  set w s := { s with working := w }
  get_set _ _ := rfl
  set_set _ _ _ := rfl
  set_get _ := rfl

/-- A write: durable at once when no transaction is begun. -/
def write (f : σ → Except ε σ) : EStateM ε (Session σ) Unit := fun s =>
  match f s.working with
  | .ok w => .ok () { s with working := w, durable := if s.levels = [] then w else s.durable }
  | .error e => .error e s

variable (illegal : ε)

/-- Begin a transaction; `illegal` inside one that is already marked. -/
def begin : EStateM ε (Session σ) Unit := fun s =>
  match s.levels with
  | [] => .ok () { s with levels := [⟨false, false⟩] }
  | level :: outer =>
      if level.marked then .error illegal s
      else .ok () { s with levels := ⟨false, false⟩ :: level :: outer }

/-- Mark the innermost transaction successful, once. -/
def mark : EStateM ε (Session σ) Unit := fun s =>
  match s.levels with
  | [] => .error illegal s
  | level :: outer =>
      if level.marked then .error illegal s
      else .ok () { s with levels := { level with marked := true } :: outer }

/-- End the innermost transaction.  The outermost one commits or rolls back; an
inner one that failed makes the one around it fail. -/
def finish : EStateM ε (Session σ) Unit := fun s =>
  match s.levels with
  | [] => .error illegal s
  | [level] =>
      if level.marked && !level.childFailed then
        .ok () { s with durable := s.working, levels := [] }
      else .ok () { s with working := s.durable, levels := [] }
  | level :: outer :: rest =>
      .ok () { s with levels :=
        { outer with childFailed := outer.childFailed || !(level.marked && !level.childFailed) } ::
          rest }

/-- Some transaction is begun. -/
def Inside (s : Session σ) : Prop := s.levels ≠ []

theorem acts_write (f : σ → Except ε σ) : Acts view Inside (write f) f := by
  intro s hs s'
  have hlevels : s.levels ≠ [] := hs
  show (match f s.working with | .ok w => _ | .error e => _) = _ ↔ ∃ w, f s.working = _ ∧ _
  cases f s.working with
  | error e => simp
  | ok w =>
      simp only [EStateM.Result.ok.injEq, true_and, Except.ok.injEq, exists_eq_left',
        if_neg hlevels]
      exact eq_comm

/-- A write outside every transaction is durable. -/
theorem run_write {f : σ → Except ε σ} {w : σ} {s' : Session σ} :
    write f (opened w) = .ok () s' ↔ ∃ w', f w = .ok w' ∧ s' = opened w' := by
  show (match f w with | .ok w => _ | .error e => _) = _ ↔ _
  cases f w with
  | error e => simp
  | ok w' =>
      simp only [EStateM.Result.ok.injEq, true_and, Except.ok.injEq, exists_eq_left']
      exact eq_comm

/-- Writes outside every transaction, one after another. -/
theorem run_forM_write {m : α → σ → Except ε σ} {xs : List α} {w : σ} {s' : Session σ} :
    (xs.forM fun x => write (m x)) (opened w) = .ok () s' ↔
      ∃ w', xs.foldlM (fun w x => m x w) w = .ok w' ∧ s' = opened w' := by
  induction xs generalizing w with
  | nil =>
      show (EStateM.Result.ok () (opened w) = _) ↔ _
      simp only [EStateM.Result.ok.injEq, true_and, List.foldlM_nil, pure_eq_ok, Except.ok.injEq,
        exists_eq_left']
      exact eq_comm
  | cons x xs ih =>
      show (write (m x) >>= fun _ => xs.forM fun x => write (m x)) (opened w) = _ ↔ _
      rw [run_bind_ok, List.foldlM_cons]
      simp only [bind_eq_ok]
      constructor
      · intro h
        obtain ⟨_, s₁, hfirst, hrest⟩ := h
        obtain ⟨w₁, hw₁, rfl⟩ := run_write.mp hfirst
        obtain ⟨w', hw', rfl⟩ := ih.mp hrest
        exact ⟨w', ⟨w₁, hw₁, hw'⟩, rfl⟩
      · intro h
        obtain ⟨w', ⟨w₁, hw₁, hw'⟩, rfl⟩ := h
        exact ⟨(), _, run_write.mpr ⟨w₁, hw₁, rfl⟩, ih.mpr ⟨w', hw', rfl⟩⟩

/-- A body between `begin` and a marked `finish`. -/
def transaction (m : EStateM ε (Session σ) Unit) : EStateM ε (Session σ) Unit := do
  begin illegal
  m
  mark illegal
  finish illegal

/-- **A completed outermost transaction makes what its body computes durable.** -/
theorem run_transaction {m : EStateM ε (Session σ) Unit} {f : σ → Except ε σ}
    (hm : Acts view Inside m f) {w : σ} {s' : Session σ} :
    transaction illegal m (opened w) = .ok () s' ↔ ∃ w', f w = .ok w' ∧ s' = opened w' := by
  have hbegin : (begin illegal : EStateM ε (Session σ) Unit) (opened w) =
      .ok () ⟨w, w, [⟨false, false⟩]⟩ := rfl
  have hend (w' : σ) : ((do mark illegal; finish illegal) : EStateM ε (Session σ) Unit)
      ⟨w, w', [⟨false, false⟩]⟩ = .ok () (opened w') := rfl
  have hbody := hm ⟨w, w, [⟨false, false⟩]⟩ (by simp [Inside])
  unfold transaction
  rw [run_bind_ok]
  simp only [hbegin, EStateM.Result.ok.injEq, true_and]
  constructor
  · intro h'
    obtain ⟨_, _, rfl, h⟩ := h'
    obtain ⟨_, s₂, hrun, hrest⟩ := run_bind_ok.mp h
    obtain ⟨w', hw', rfl⟩ := (hbody s₂).mp hrun
    have hlast := hend w'
    exact ⟨w', hw', (EStateM.Result.ok.inj (hlast.symm.trans hrest)).2.symm⟩
  · intro h'
    obtain ⟨w', hw', rfl⟩ := h'
    exact ⟨(), _, rfl, run_bind_ok.mpr ⟨(), _, (hbody _).mpr ⟨w', hw', rfl⟩, hend w'⟩⟩

end Session

end Store
