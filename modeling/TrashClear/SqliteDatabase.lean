import TrashClear.Java.Text
import TrashClear.Library.Store

/-!
# Lists of SQL statements

`SqliteDatabase.executeSqls` executes a list of statements on a connection without
auto-commit, commits and answers true.  An SQL exception on the way is answered by
false: what was executed before it is neither committed nor rolled back, and stays
pending.  The engine is a parameter: a statement that it refuses changes nothing.

To say which statements have become durable, a run is made over contents with a log
of the executed statements, each named by its call and its position in the call
(`numbered`, `afterCalls`).  `mem_working_log` and `mem_durable_log` say what is in
the log after any number of calls, and `allOrNothing_iff` when every call of a run is
all or nothing.
-/

namespace TrashClear.SqliteDatabase

open Java Run Store

variable {Sql σ : Type} (execute : Sql → σ → Except Throwable σ)

/-- Execute and commit; an SQL exception on the way is answered by false, and
what was executed before it stays pending. -/
def executeSqls (sqls : List Sql) : EStateM Throwable (Connection σ) Bool := fun c =>
  match ((sqls.forM fun sql => Connection.update (execute sql)) >>= fun _ =>
    Connection.commit) c with
  | .ok _ c' => .ok true c'
  | .error (.sql _) c' => .ok false c'
  | .error e c' => .error e c'

/-! ## One call -/

/-- All statements are accepted, one after the other. -/
def Accepted (w : σ) (sqls : List Sql) : Prop := (advance execute sqls w).2 = none

/-- The first statement is accepted, and a later one is refused. -/
def CutShort (w : σ) (sqls : List Sql) : Prop :=
  0 < acceptedCount execute sqls w ∧ ∃ reason, (advance execute sqls w).2 = some (.sql reason)

/-- Every outcome of a call. -/
theorem executeSqls_eq (sqls : List Sql) (c : Connection σ) :
    executeSqls execute sqls c =
      match (advance execute sqls c.working).2 with
      | none => .ok true (Connection.opened (advance execute sqls c.working).1)
      | some (.sql _) => .ok false { c with working := (advance execute sqls c.working).1 }
      | some e => .error e { c with working := (advance execute sqls c.working).1 } := by
  have hloop := Connection.run_forM_update execute sqls c
  unfold executeSqls
  cases h : (advance execute sqls c.working).2 with
  | none =>
      simp only [h] at hloop
      rw [run_bind_of_ok hloop]
      rfl
  | some e =>
      simp only [h] at hloop
      have hrun : ((sqls.forM fun sql => Connection.update (execute sql)) >>= fun _ =>
          Connection.commit) c =
            .error e { c with working := (advance execute sqls c.working).1 } :=
        run_bind_error.mpr (Or.inl hloop)
      rw [hrun]
      cases e <;> rfl

theorem answer_eq_true {sqls : List Sql} {c : Connection σ} :
    answer (executeSqls execute sqls c) = .ok true ↔ Accepted execute c.working sqls := by
  rw [executeSqls_eq, Accepted]
  cases h : (advance execute sqls c.working).2 with
  | none => simp [answer]
  | some e => cases e <;> simp [answer]

theorem answer_eq_false {sqls : List Sql} {c : Connection σ} :
    answer (executeSqls execute sqls c) = .ok false ↔
      ∃ reason, (advance execute sqls c.working).2 = some (.sql reason) := by
  rw [executeSqls_eq]
  cases h : (advance execute sqls c.working).2 with
  | none => simp [answer]
  | some e => cases e <;> simp [answer]

/-- Whatever the answer is, the connection sees the statements before the refusal. -/
theorem working_left (sqls : List Sql) (c : Connection σ) :
    (left (executeSqls execute sqls c)).working = (advance execute sqls c.working).1 := by
  rw [executeSqls_eq]
  cases h : (advance execute sqls c.working).2 with
  | none => rfl
  | some e => cases e <;> rfl

/-- An accepted call makes everything durable that the connection sees. -/
theorem durable_left_of_accepted {sqls : List Sql} {c : Connection σ}
    (h : Accepted execute c.working sqls) :
    (left (executeSqls execute sqls c)).durable = (advance execute sqls c.working).1 := by
  unfold Accepted at h
  rw [executeSqls_eq, h]
  rfl

/-- Any other call makes nothing durable. -/
theorem durable_left_of_not_accepted {sqls : List Sql} {c : Connection σ}
    (h : ¬ Accepted execute c.working sqls) :
    (left (executeSqls execute sqls c)).durable = c.durable := by
  unfold Accepted at h
  rw [executeSqls_eq]
  cases hrefusal : (advance execute sqls c.working).2 with
  | none => exact absurd hrefusal h
  | some e => cases e <;> rfl

/-! ## Runs of calls on one connection -/

/-- A statement of a run: the number of its call, and its position in it. -/
abbrev Occurrence := Nat × Nat

/-- The statements of call `k` with their names. -/
def numbered (k : Nat) (sqls : List Sql) : List (Occurrence × Sql) :=
  sqls.mapIdx fun i sql => ((k, i), sql)

theorem numbered_statements (k : Nat) (sqls : List Sql) :
    (numbered k sqls).map Prod.snd = sqls :=
  List.ext_getElem (by simp [numbered]) (fun i _ _ => by simp [numbered])

theorem numbered_names (k : Nat) (sqls : List Sql) :
    (numbered k sqls).map Prod.fst = (List.range sqls.length).map fun i => (k, i) :=
  List.ext_getElem (by simp [numbered]) (fun i _ _ => by simp [numbered])

variable (w : σ) (calls : List (List Sql))

/-- The connection after the first `n` calls, with the log of what was executed. -/
def afterCalls : Nat → Connection (σ × List Occurrence)
  | 0 => Connection.opened (w, [])
  | n + 1 =>
      match calls[n]? with
      | some sqls => left (executeSqls (logged execute) (numbered n sqls) (afterCalls n))
      | none => afterCalls n

/-- The answer of call `k` with the statements `sqls`. -/
def answerOf (k : Nat) (sqls : List Sql) : Except Throwable Bool :=
  answer (executeSqls (logged execute) (numbered k sqls) (afterCalls execute w calls k))

/-- A call that answers true has made all its statements durable, for good; of a call
that answers false no statement is durable, then or after any later call. -/
structure AllOrNothing : Prop where
  all : ∀ k sqls, calls[k]? = some sqls → answerOf execute w calls k sqls = .ok true →
    ∀ n > k, ∀ i < sqls.length, (k, i) ∈ (afterCalls execute w calls n).durable.2
  nothing : ∀ k sqls, calls[k]? = some sqls → answerOf execute w calls k sqls = .ok false →
    ∀ n > k, ∀ i, (k, i) ∉ (afterCalls execute w calls n).durable.2

/-- The content that call `n` works on: every statement before the first refused one
of each earlier call. -/
def contentBefore : Nat → σ
  | 0 => w
  | n + 1 =>
      match calls[n]? with
      | some sqls => (advance execute sqls (contentBefore n)).1
      | none => contentBefore n

/-! ## What is in the log -/

/-- The log changes no outcome. -/
theorem accepted_logged {k : Nat} {sqls : List Sql} {s : σ × List Occurrence} :
    Accepted (logged execute) s (numbered k sqls) ↔ Accepted execute s.1 sqls := by
  unfold Accepted
  rw [advance_logged, numbered_statements]

variable {execute w calls}

/-- The names that a call adds to the log. -/
theorem mem_log_advance {k : Nat} {sqls : List Sql} {s : σ × List Occurrence} {j i : Nat} :
    (j, i) ∈ (advance (logged execute) (numbered k sqls) s).1.2 ↔
      (j, i) ∈ s.2 ∨ (j = k ∧ i < acceptedCount execute sqls s.1) := by
  rw [advance_logged, numbered_statements, numbered_names, ← List.map_take, List.take_range,
    Nat.min_eq_left (acceptedCount_le_length execute sqls s.1), List.mem_append]
  simp only [List.mem_map, List.mem_range, Prod.mk.injEq]
  constructor
  · intro h
    rcases h with hold | ⟨i', hi', rfl, rfl⟩
    · exact Or.inl hold
    · exact Or.inr ⟨rfl, hi'⟩
  · intro h
    rcases h with hold | ⟨rfl, hi⟩
    · exact Or.inl hold
    · exact Or.inr ⟨i, hi, rfl, rfl⟩

/-- The statements of a run up to call `n`, and before the first refused one of their
call. -/
def Executed (execute : Sql → σ → Except Throwable σ) (w : σ) (calls : List (List Sql))
    (n k i : Nat) : Prop :=
  k < n ∧ ∃ sqls, calls[k]? = some sqls ∧
    i < acceptedCount execute sqls (contentBefore execute w calls k)

/-- **The pending log**: of every call so far, the statements before the first refused
one. -/
theorem mem_working_log (n : Nat) :
    (afterCalls execute w calls n).working.1 = contentBefore execute w calls n ∧
      ∀ k i, (k, i) ∈ (afterCalls execute w calls n).working.2 ↔
        Executed execute w calls n k i := by
  induction n with
  | zero => exact ⟨rfl, fun k i => by simp [afterCalls, Connection.opened, Executed]⟩
  | succ n ih =>
      obtain ⟨hcontent, hlog⟩ := ih
      have hgrow (k i : Nat) : Executed execute w calls (n + 1) k i ↔
          Executed execute w calls n k i ∨ (k = n ∧ ∃ sqls, calls[n]? = some sqls ∧
            i < acceptedCount execute sqls (contentBefore execute w calls n)) := by
        unfold Executed
        rw [Nat.lt_succ_iff_lt_or_eq]
        constructor
        · intro h
          obtain ⟨hk | rfl, hcall⟩ := h
          · exact Or.inl ⟨hk, hcall⟩
          · exact Or.inr ⟨rfl, hcall⟩
        · intro h
          rcases h with ⟨hk, hcall⟩ | ⟨rfl, hcall⟩
          · exact ⟨Or.inl hk, hcall⟩
          · exact ⟨Or.inr rfl, hcall⟩
      cases hcall : calls[n]? with
      | none =>
          simp only [afterCalls, contentBefore, hcall, hgrow, reduceCtorEq, false_and,
            exists_false, and_false, or_false]
          exact ⟨hcontent, hlog⟩
      | some sqls =>
          simp only [afterCalls, contentBefore, hcall, hgrow, working_left, Option.some.injEq,
            exists_eq_left', mem_log_advance, hcontent, hlog]
          refine ⟨?_, fun _ _ => trivial⟩
          rw [advance_logged, numbered_statements, hcontent]

/-- Call `m` accepts all of its statements. -/
def AcceptedCall (execute : Sql → σ → Except Throwable σ) (w : σ) (calls : List (List Sql))
    (m : Nat) : Prop :=
  ∃ sqls, calls[m]? = some sqls ∧ Accepted execute (contentBefore execute w calls m) sqls

/-- **The durable log**: what was executed by the time of some accepted call. -/
theorem mem_durable_log (n k i : Nat) :
    (k, i) ∈ (afterCalls execute w calls n).durable.2 ↔
      Executed execute w calls n k i ∧ ∃ m, k ≤ m ∧ m < n ∧ AcceptedCall execute w calls m := by
  induction n with
  | zero => simp [afterCalls, Connection.opened, Executed]
  | succ n ih =>
      have hcontent : (afterCalls execute w calls n).working.1 = contentBefore execute w calls n :=
        (mem_working_log n).1
      have hlog : (k, i) ∈ (afterCalls execute w calls (n + 1)).working.2 ↔
          Executed execute w calls (n + 1) k i := (mem_working_log (n + 1)).2 k i
      by_cases haccepted : AcceptedCall execute w calls n
      · -- everything that is pending becomes durable
        obtain ⟨sqls, hcall, hall⟩ := haccepted
        have hdurable : (afterCalls execute w calls (n + 1)).durable =
            (afterCalls execute w calls (n + 1)).working := by
          simp only [afterCalls, hcall]
          rw [working_left, durable_left_of_accepted]
          rw [accepted_logged, hcontent]
          exact hall
        rw [hdurable, hlog]
        constructor
        · intro h
          exact ⟨h, n, by have hk := h.1; omega, by omega, sqls, hcall, hall⟩
        · intro h
          exact h.1
      · have hdurable : (afterCalls execute w calls (n + 1)).durable =
            (afterCalls execute w calls n).durable := by
          cases hcall : calls[n]? with
          | none => simp only [afterCalls, hcall]
          | some sqls =>
              simp only [afterCalls, hcall]
              apply durable_left_of_not_accepted
              rw [accepted_logged, hcontent]
              exact fun hall => haccepted ⟨sqls, hcall, hall⟩
        rw [hdurable, ih]
        constructor
        · intro h
          obtain ⟨⟨hk, hcall⟩, m, hkm, hm, hcommit⟩ := h
          exact ⟨⟨by omega, hcall⟩, m, hkm, by omega, hcommit⟩
        · intro h
          obtain ⟨⟨_, hcall⟩, m, hkm, hm, hcommit⟩ := h
          have hne : m ≠ n := fun heq => haccepted (heq ▸ hcommit)
          exact ⟨⟨by omega, hcall⟩, m, hkm, by omega, hcommit⟩

/-- The answer of a call is that of its statements on the content before it. -/
theorem answerOf_eq_true {k : Nat} {sqls : List Sql} :
    answerOf execute w calls k sqls = .ok true ↔
      Accepted execute (contentBefore execute w calls k) sqls := by
  rw [answerOf, answer_eq_true, accepted_logged, (mem_working_log k).1]

theorem answerOf_eq_false {k : Nat} {sqls : List Sql} :
    answerOf execute w calls k sqls = .ok false ↔
      ∃ reason, (advance execute sqls (contentBefore execute w calls k)).2 =
        some (.sql reason) := by
  rw [answerOf, answer_eq_false, advance_logged, numbered_statements, (mem_working_log k).1]

/-- **A run of calls is all or nothing exactly when no call that is cut short is
followed by an accepted one**, which commits what the other had left pending. -/
theorem allOrNothing_iff (execute : Sql → σ → Except Throwable σ) (w : σ)
    (calls : List (List Sql)) :
    AllOrNothing execute w calls ↔
      ∀ j k sqls sqls', j < k → calls[j]? = some sqls → calls[k]? = some sqls' →
        CutShort execute (contentBefore execute w calls j) sqls →
          ¬ Accepted execute (contentBefore execute w calls k) sqls' := by
  constructor
  · intro h j k sqls sqls' hjk hj hk hcut haccepted
    obtain ⟨hcount, hrefused⟩ := hcut
    -- the first statement of call `j` is durable after call `k`
    refine h.nothing j sqls hj (answerOf_eq_false.mpr hrefused) (k + 1) (by omega) 0 ?_
    exact (mem_durable_log (k + 1) j 0).mpr
      ⟨⟨by omega, sqls, hj, hcount⟩, k, by omega, by omega, sqls', hk, haccepted⟩
  · intro h
    refine ⟨?_, ?_⟩
    · intro k sqls hk htrue n hn i hi
      have haccepted := answerOf_eq_true.mp htrue
      have hcount : i < acceptedCount execute sqls (contentBefore execute w calls k) := by
        rw [acceptedCount_eq_length haccepted]
        exact hi
      exact (mem_durable_log n k i).mpr
        ⟨⟨hn, sqls, hk, hcount⟩, k, Nat.le_refl k, hn, sqls, hk, haccepted⟩
    · intro k sqls hk hfalse n _ i hmem
      obtain ⟨reason, hrefused⟩ := answerOf_eq_false.mp hfalse
      obtain ⟨⟨_, sqls', hk', hcount⟩, m, hkm, _, later, hm, haccepted⟩ :=
        (mem_durable_log n k i).mp hmem
      obtain rfl := Option.some.inj (hk.symm.trans hk')
      rcases Nat.eq_or_lt_of_le hkm with rfl | hlt
      · -- the call itself is refused
        obtain rfl := Option.some.inj (hk.symm.trans hm)
        unfold Accepted at haccepted
        rw [hrefused] at haccepted
        cases haccepted
      · exact h k m sqls later hlt hk hm ⟨by omega, reason, hrefused⟩ haccepted

end TrashClear.SqliteDatabase
