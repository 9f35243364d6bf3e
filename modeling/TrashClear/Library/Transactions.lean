import TrashClear.Library.Store

/-!
# Transactions that are left open

A body between `begin` and `finish` of a `Session` may throw in between, and then
the transaction stays begun.

* `Inner m`: inside a transaction, `m` changes only what the session sees.
* `run_transaction_of_closed`, `run_transaction_of_error`, `run_transaction_of_ok`:
  every outcome of a transaction around such a body.
* `Balanced`: a call leaves the nesting as it was, and when it throws nothing that it
  wrote is ever durable; `balanced_transaction_iff` says when that holds.
* `Bracketed.pending`: transactions begun and ended after one that was left open
  join it, and nothing of theirs is durable either.
* `Held`: transactions are begun and none is marked.  Bodies and transactions around
  them keep it (`Inner.held`, `Inner.held_transaction`), and one that throws out of no
  transaction brings it about (`Inner.transaction_opened`).
-/

namespace Store.Session

open Run

variable {ε σ α β : Type}

/-- The number of begun transactions. -/
def depth (s : Session σ) : Nat := s.levels.length

/-- The innermost transaction is marked already: no other can be begun in it. -/
def Closed (s : Session σ) : Prop := ∃ level outer, s.levels = level :: outer ∧ level.marked = true

/-- The session with one more transaction. -/
def entered (s : Session σ) : Session σ := { s with levels := ⟨false, false⟩ :: s.levels }

/-! ## Bodies -/

/-- Inside a transaction, the program changes only what the session sees, whether it
returns or throws. -/
def Inner (m : EStateM ε (Session σ) α) : Prop :=
  ∀ s, Inside s → ∃ w, left (m s) = { s with working := w }

theorem inner_pure (a : α) : Inner (pure a : EStateM ε (Session σ) α) :=
  fun s _ => ⟨s.working, rfl⟩

theorem inner_attempt (m : Except ε α) : Inner (attempt m : EStateM ε (Session σ) α) := by
  intro s _
  cases m with
  | error e => exact ⟨s.working, rfl⟩
  | ok a => exact ⟨s.working, rfl⟩

theorem inner_write (f : σ → Except ε σ) : Inner (write f) := by
  intro s hs
  have hlevels : s.levels ≠ [] := hs
  unfold write
  cases f s.working with
  | error e => exact ⟨s.working, rfl⟩
  | ok w => exact ⟨w, by simp [left, hlevels]⟩

theorem Inner.bind {m : EStateM ε (Session σ) α} {f : α → EStateM ε (Session σ) β}
    (hm : Inner m) (hf : ∀ a, Inner (f a)) : Inner (m >>= f) := by
  intro s hs
  obtain ⟨w, hw⟩ := hm s hs
  cases hrun : m s with
  | error e s' =>
      have hbind : (m >>= f) s = .error e s' := run_bind_error.mpr (Or.inl hrun)
      rw [hrun] at hw
      exact ⟨w, by rw [hbind]; exact hw⟩
  | ok a s' =>
      rw [hrun] at hw
      obtain rfl : s' = { s with working := w } := hw
      rw [run_bind_of_ok hrun]
      exact hf a _ hs

theorem Inner.forM {m : α → EStateM ε (Session σ) Unit} (hm : ∀ x, Inner (m x)) (xs : List α) :
    Inner (xs.forM m) := by
  induction xs with
  | nil => exact inner_pure ()
  | cons x xs ih => exact (hm x).bind fun _ => ih

/-! ## Every outcome of a transaction -/

variable (illegal : ε)

theorem run_begin_of_closed {s : Session σ} (h : Closed s) :
    begin illegal s = .error illegal s := by
  obtain ⟨level, outer, hlevels, hmarked⟩ := h
  simp [begin, hlevels, hmarked]

theorem run_begin {s : Session σ} (h : ¬ Closed s) : begin illegal s = .ok () (entered s) := by
  unfold begin entered
  cases hlevels : s.levels with
  | nil => rfl
  | cons level outer =>
      have hmarked : ¬ level.marked = true := fun hm => h ⟨level, outer, hlevels, hm⟩
      exact if_neg hmarked

variable {m : EStateM ε (Session σ) Unit} {s s' : Session σ} {e : ε} {w : σ}

/-- Nothing happens when the transaction cannot be begun. -/
theorem run_transaction_of_closed (m : EStateM ε (Session σ) Unit) (h : Closed s) :
    transaction illegal m s = .error illegal s :=
  run_bind_error.mpr (Or.inl (run_begin_of_closed illegal h))

/-- When the body throws, the transaction is left as it is. -/
theorem run_transaction_of_error (h : ¬ Closed s) (hbody : m (entered s) = .error e s') :
    transaction illegal m s = .error e s' :=
  run_bind_error.mpr (Or.inr ⟨(), _, run_begin illegal h, run_bind_error.mpr (Or.inl hbody)⟩)

/-- A completed transaction is one write. -/
theorem run_transaction_of_ok (h : ¬ Closed s)
    (hbody : m (entered s) = .ok () { entered s with working := w }) :
    transaction illegal m s =
      .ok () { s with working := w, durable := if s.levels = [] then w else s.durable } := by
  have hend : ((do mark illegal; finish illegal) : EStateM ε (Session σ) Unit)
      { entered s with working := w } =
        .ok () { s with working := w, durable := if s.levels = [] then w else s.durable } := by
    obtain ⟨durable, working, levels⟩ := s
    cases levels with
    | nil => rfl
    | cons level outer =>
        obtain ⟨marked, childFailed⟩ := level
        cases childFailed <;> rfl
  exact run_bind_ok.mpr ⟨(), _, run_begin illegal h, run_bind_ok.mpr ⟨(), _, hbody, hend⟩⟩

/-! ## Balanced calls -/

/-- One operation on a session. -/
inductive Op (ε σ : Type) where
  | begin
  | mark
  | finish
  | write (f : σ → Except ε σ)

def Op.run : Op ε σ → EStateM ε (Session σ) Unit
  | .begin => Session.begin illegal
  | .mark => Session.mark illegal
  | .finish => Session.finish illegal
  | .write f => Session.write f

/-- What operations leave, whatever each of them answers. -/
def later (ops : List (Op ε σ)) (s : Session σ) : Session σ :=
  ops.foldl (fun s op => left (op.run illegal s)) s

/-- A call leaves the transactions nested as deep as they were.  When it throws, what is
durable then, or after any later operations, is as if it had written nothing. -/
structure Balanced (m : EStateM ε (Session σ) α) (s : Session σ) : Prop where
  returned : ∀ a s', m s = .ok a s' → s'.depth = s.depth
  thrown : ∀ e s', m s = .error e s' → s'.depth = s.depth
  undone : ∀ e s', m s = .error e s' → ∀ ops,
    (later illegal ops s').durable = (later illegal ops { s with levels := s'.levels }).durable

/-- **A transaction is balanced exactly when it cannot be begun, or its body
returns**: a body that throws leaves it open. -/
theorem balanced_transaction_iff (hm : Inner m) :
    Balanced illegal (transaction illegal m) s ↔ Closed s ∨ ∃ s', m (entered s) = .ok () s' := by
  by_cases hclosed : Closed s
  · -- the call throws and leaves the session as it was
    have hrun := run_transaction_of_closed illegal m hclosed
    refine ⟨fun _ => Or.inl hclosed, fun _ => ⟨?_, ?_, ?_⟩⟩
    · intro _ s' h
      rw [hrun] at h
      cases h
    · intro e s' h
      rw [hrun] at h
      cases h
      rfl
    · intro e s' h ops
      rw [hrun] at h
      cases h
      rfl
  · obtain ⟨w, hw⟩ := hm (entered s) (by simp [Inside, entered])
    cases hbody : m (entered s) with
    | error e s' =>
        rw [hbody] at hw
        obtain rfl : s' = { entered s with working := w } := hw
        have hrun := run_transaction_of_error illegal hclosed hbody
        constructor
        · intro h
          have hdepth : s.levels.length + 1 = s.levels.length := h.thrown _ _ hrun
          omega
        · intro h
          rcases h with h | ⟨_, h⟩
          · exact absurd h hclosed
          · cases h
    | ok a s' =>
        rw [hbody] at hw
        obtain rfl : s' = { entered s with working := w } := hw
        have hrun := run_transaction_of_ok illegal hclosed hbody
        refine ⟨fun _ => Or.inr ⟨_, rfl⟩, fun _ => ⟨?_, ?_, ?_⟩⟩
        · intro _ s' h
          rw [hrun] at h
          cases h
          rfl
        · intro e s' h
          rw [hrun] at h
          cases h
        · intro e s' h
          rw [hrun] at h
          cases h

/-! ## What comes after a transaction that was left open -/

/-- Transactions that are begun and ended in turn, around writes and other such
transactions, each one marked successful or not. -/
inductive Bracketed : List (Op ε σ) → Prop
  | nil : Bracketed []
  | write (f : σ → Except ε σ) {ops} : Bracketed ops → Bracketed (.write f :: ops)
  | successful {body ops} : Bracketed body → Bracketed ops →
      Bracketed (.begin :: body ++ .mark :: .finish :: ops)
  | failed {body ops} : Bracketed body → Bracketed ops →
      Bracketed (.begin :: body ++ .finish :: ops)

/-- A transaction that is not marked is begun in `outer`, and `d` is durable. -/
def Pending (outer : List Level) (d : σ) (s : Session σ) : Prop :=
  (∃ level, s.levels = level :: outer ∧ level.marked = false) ∧ s.durable = d

/-- A body that throws leaves its transaction begun and not marked. -/
theorem pending_of_error (hm : Inner m) (hclosed : ¬ Closed s)
    (h : transaction illegal m s = .error e s') : Pending s.levels s.durable s' := by
  obtain ⟨w, hw⟩ := hm (entered s) (by simp [Inside, entered])
  cases hbody : m (entered s) with
  | error e' s₁ =>
      rw [run_transaction_of_error illegal hclosed hbody] at h
      rw [hbody] at hw
      cases h
      obtain rfl : s' = { entered s with working := w } := hw
      exact ⟨⟨_, rfl, rfl⟩, rfl⟩
  | ok a s₁ =>
      rw [hbody] at hw
      obtain rfl : s₁ = { entered s with working := w } := hw
      rw [run_transaction_of_ok illegal hclosed hbody] at h
      cases h

section Pending

variable {outer : List Level} {d : σ}

/-- Another transaction can be begun in it. -/
theorem Pending.begin (h : Pending outer d s) :
    ∃ level, level.marked = false ∧ Pending (level :: outer) d (left (begin illegal s)) := by
  obtain ⟨⟨level, hlevels, hmarked⟩, hdurable⟩ := h
  have hclosed : ¬ Closed s := by
    intro hclosed
    obtain ⟨level', outer', hlevels', hmarked'⟩ := hclosed
    rw [hlevels] at hlevels'
    cases hlevels'
    simp [hmarked] at hmarked'
  rw [run_begin illegal hclosed]
  exact ⟨level, hmarked, ⟨⟨false, false⟩, congrArg _ hlevels, rfl⟩, hdurable⟩

theorem Pending.write (h : Pending outer d s) (f : σ → Except ε σ) :
    Pending outer d (left (Session.write f s)) := by
  obtain ⟨⟨level, hlevels, hmarked⟩, hdurable⟩ := h
  obtain ⟨w, hw⟩ := inner_write f s (by simp [Inside, hlevels])
  rw [hw]
  exact ⟨⟨level, hlevels, hmarked⟩, hdurable⟩

theorem Pending.mark (h : Pending outer d s) :
    ∃ level, (left (mark illegal s)).levels = level :: outer ∧
      (left (mark illegal s)).durable = d := by
  obtain ⟨⟨level, hlevels, hmarked⟩, hdurable⟩ := h
  exact ⟨{ level with marked := true }, by simp [Session.mark, hlevels, hmarked, left],
    by simpa [Session.mark, hlevels, hmarked, left] using hdurable⟩

/-- Ending a transaction inside of one that is not marked makes nothing durable. -/
theorem pending_finish {level around : Level} (hlevels : s.levels = level :: around :: outer)
    (hmarked : around.marked = false) (hdurable : s.durable = d) :
    Pending outer d (left (finish illegal s)) := by
  unfold finish
  rw [hlevels]
  exact ⟨⟨_, rfl, hmarked⟩, hdurable⟩

/-- **Bracketed operations join the transaction that was left open**: it stays open,
and nothing of theirs becomes durable. -/
theorem Bracketed.pending {ops : List (Op ε σ)} (h : Bracketed ops) (hs : Pending outer d s) :
    Pending outer d (later illegal ops s) := by
  induction h generalizing s outer with
  | nil => exact hs
  | write f _ ih => exact ih (hs.write f)
  | @successful body ops _ _ ihbody ih =>
      obtain ⟨around, hmarked, hentered⟩ := hs.begin illegal
      obtain ⟨level, hlevels, hdurable⟩ := (ihbody hentered).mark illegal
      have hcut : later illegal (.begin :: body ++ .mark :: .finish :: ops) s =
          later illegal ops (left (finish illegal (left (mark illegal
            (later illegal body (left (begin illegal s))))))) := by
        simp [later, Op.run]
      rw [hcut]
      exact ih (pending_finish illegal hlevels hmarked hdurable)
  | @failed body ops _ _ ihbody ih =>
      obtain ⟨around, hmarked, hentered⟩ := hs.begin illegal
      obtain ⟨⟨level, hlevels, _⟩, hdurable⟩ := ihbody hentered
      have hcut : later illegal (.begin :: body ++ .finish :: ops) s =
          later illegal ops (left (finish illegal
            (later illegal body (left (begin illegal s))))) := by
        simp [later, Op.run]
      rw [hcut]
      exact ih (pending_finish illegal hlevels hmarked hdurable)

end Pending

/-! ## Sessions in which nothing becomes durable -/

/-- Transactions are begun, none of them is marked, and `d` is durable. -/
def Held (d : σ) (s : Session σ) : Prop :=
  Inside s ∧ (∀ level ∈ s.levels, level.marked = false) ∧ s.durable = d

section Held

variable {d : σ}

theorem Held.not_closed (h : Held d s) : ¬ Closed s := by
  intro hclosed
  obtain ⟨level, outer, hlevels, hmarked⟩ := hclosed
  have hunmarked := h.2.1 level (by simp [hlevels])
  rw [hmarked] at hunmarked
  cases hunmarked

theorem Held.entered (h : Held d s) : Held d (entered s) :=
  ⟨List.cons_ne_nil _ _, List.forall_mem_cons.mpr ⟨rfl, h.2.1⟩, h.2.2⟩

/-- One program after another, whether the first returns or throws. -/
theorem Held.bind {m : EStateM ε (Session σ) α} {f : α → EStateM ε (Session σ) β}
    (hm : Held d (left (m s))) (hf : ∀ a s', Held d s' → Held d (left (f a s'))) :
    Held d (left ((m >>= f) s)) := by
  cases hrun : m s with
  | error e s' =>
      rw [run_bind_of_error hrun]
      rwa [hrun] at hm
  | ok a s' =>
      rw [run_bind_of_ok hrun]
      rw [hrun] at hm
      exact hf a s' hm

theorem Inner.held {m : EStateM ε (Session σ) α} (hm : Inner m) (h : Held d s) :
    Held d (left (m s)) := by
  obtain ⟨w, hw⟩ := hm s h.1
  rw [hw]
  exact h

/-- A transaction inside of others makes nothing durable. -/
theorem Inner.held_transaction (hm : Inner m) (h : Held d s) :
    Held d (left (transaction illegal m s)) := by
  obtain ⟨w, hw⟩ := hm (Session.entered s) h.entered.1
  cases hbody : m (Session.entered s) with
  | error e s' =>
      rw [run_transaction_of_error illegal h.not_closed hbody]
      rw [hbody] at hw
      obtain rfl : s' = { Session.entered s with working := w } := hw
      exact h.entered
  | ok a s' =>
      rw [hbody] at hw
      obtain rfl : s' = { Session.entered s with working := w } := hw
      rw [run_transaction_of_ok illegal h.not_closed hbody]
      exact ⟨h.1, h.2.1, (if_neg h.1).trans h.2.2⟩

/-- **An outermost transaction** ends with everything durable, or is left open with
nothing durable. -/
theorem Inner.transaction_opened (hm : Inner m) (d : σ) :
    (∃ d', transaction illegal m (opened d) = .ok () (opened d')) ∨
      ∃ e s', transaction illegal m (opened d) = .error e s' ∧ Held d s' := by
  have hclosed : ¬ Closed (opened d) := by simp [Closed, opened]
  obtain ⟨w, hw⟩ := hm (entered (opened d)) (List.cons_ne_nil _ _)
  cases hbody : m (entered (opened d)) with
  | error e s' =>
      rw [hbody] at hw
      obtain rfl : s' = { entered (opened d) with working := w } := hw
      exact Or.inr ⟨e, _, run_transaction_of_error illegal hclosed hbody, List.cons_ne_nil _ _,
        List.forall_mem_singleton.mpr rfl, rfl⟩
  | ok a s' =>
      rw [hbody] at hw
      obtain rfl : s' = { entered (opened d) with working := w } := hw
      exact Or.inl ⟨w, run_transaction_of_ok illegal hclosed hbody⟩

end Held

end Store.Session
