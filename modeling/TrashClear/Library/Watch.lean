import TrashClear.Library.Run

/-!
# Programs that may be stopped

A program over a state is watched: its operations are atomic, and the state after each
of them is noted, whether it returns or throws.  When the machine stops in the middle of a
run, one of the noted states is found afterwards.

`Safe during pre x post thrown` is the triple of such programs: started where `pre`
holds, every noted state satisfies `during`, and the run ends in `post` or throws in
`thrown`.  There is a rule for each way to build a program: `safe_pure`, `safe_throw`,
`safe_step`, `Safe.bind`, `Safe.caught`, `Safe.tried`; `Safe.weaken` is the rule of consequence.

`Found` are the states in which a system can be found that is stopped and started again
any number of times.  `Found.induction` is the rule for them: what every run keeps while
it goes on, from a state that has it, is found.
-/

namespace Watch

open Run

variable {ε ε' σ α β : Type}

/-- A state, and the states that were noted on the way to it. -/
structure Watched (σ : Type) where
  now : σ
  past : List σ

/-- Nothing has been noted yet. -/
def start (s : σ) : Watched σ := ⟨s, []⟩

def Watched.note (w : Watched σ) (s : σ) : Watched σ := ⟨s, w.past ++ [s]⟩

/-- An atomic operation, with `f` applied to its exceptions. -/
def step (f : ε → ε') (x : EStateM ε σ α) : EStateM ε' (Watched σ) α := fun w =>
  match x w.now with
  | .ok a s => .ok a (w.note s)
  | .error e s => .error (f e) (w.note s)

/-- The states that are noted in a run from `s`. -/
def noted (x : EStateM ε (Watched σ) α) (s : σ) : List σ := (left (x (start s))).past

/-! ## Triples -/

/-- A run notes states of `during`, and the last one is the state in which it ends. -/
def Grows (during : σ → Prop) (w w' : Watched σ) : Prop :=
  ∃ new, w'.past = w.past ++ new ∧ (∀ s ∈ new, during s) ∧ w'.now ∈ w.now :: new

theorem grows_refl (during : σ → Prop) (w : Watched σ) : Grows during w w :=
  ⟨[], by simp⟩

theorem grows_note {during : σ → Prop} (w : Watched σ) {s : σ} (hs : during s) :
    Grows during w (w.note s) :=
  ⟨[s], rfl, by simp [hs], by simp [Watched.note]⟩

theorem Grows.trans {during : σ → Prop} {w w' w'' : Watched σ} (h : Grows during w w')
    (h' : Grows during w' w'') : Grows during w w'' := by
  obtain ⟨new, hnew, hall, hnow⟩ := h
  obtain ⟨more, hmore, hall', hnow'⟩ := h'
  refine ⟨new ++ more, by rw [hmore, hnew, List.append_assoc], fun s hs => ?_, ?_⟩
  · exact (List.mem_append.mp hs).elim (hall s) (hall' s)
  · rw [← List.cons_append]
    rcases List.mem_cons.mp hnow' with hsame | hlater
    · exact List.mem_append_left _ (hsame ▸ hnow)
    · exact List.mem_append_right _ hlater

theorem Grows.weaken {during during' : σ → Prop} {w w' : Watched σ} (h : Grows during w w')
    (hduring : ∀ s, during s → during' s) : Grows during' w w' := by
  obtain ⟨new, hnew, hall, hnow⟩ := h
  exact ⟨new, hnew, fun s hs => hduring s (hall s hs), hnow⟩

/-- How a run from `w` ends. -/
def Ends (during : σ → Prop) (post : α → σ → Prop) (thrown : σ → Prop) (w : Watched σ) :
    EStateM.Result ε (Watched σ) α → Prop
  | .ok a w' => post a w'.now ∧ Grows during w w'
  | .error _ w' => thrown w'.now ∧ Grows during w w'

/-- Started in `pre`, a run notes states of `during`, and ends in `post` or throws in
`thrown`. -/
def Safe (during pre : σ → Prop) (x : EStateM ε (Watched σ) α) (post : α → σ → Prop)
    (thrown : σ → Prop) : Prop :=
  ∀ w, pre w.now → Ends during post thrown w (x w)

section Rules

variable {during pre pre' : σ → Prop} {post post' : α → σ → Prop} {thrown thrown' : σ → Prop}
  {x : EStateM ε (Watched σ) α}

theorem Ends.weaken {during' : σ → Prop} {w : Watched σ} {r : EStateM.Result ε (Watched σ) α}
    (h : Ends during post thrown w r) (hduring : ∀ s, during s → during' s)
    (hpost : ∀ a s, post a s → post' a s) (hthrown : ∀ s, thrown s → thrown' s) :
    Ends during' post' thrown' w r := by
  cases r with
  | ok a w' => exact ⟨hpost a _ h.1, h.2.weaken hduring⟩
  | error e w' => exact ⟨hthrown _ h.1, h.2.weaken hduring⟩

/-- The rule of consequence. -/
theorem Safe.weaken {during' : σ → Prop} (h : Safe during pre x post thrown)
    (hpre : ∀ s, pre' s → pre s) (hduring : ∀ s, during s → during' s)
    (hpost : ∀ a s, post a s → post' a s) (hthrown : ∀ s, thrown s → thrown' s) :
    Safe during' pre' x post' thrown' :=
  fun w hw => (h w (hpre _ hw)).weaken hduring hpost hthrown

/-- A premise that does not depend on the state. -/
theorem safe_of_forall {P : Prop} {Q : σ → Prop} (h : P → Safe during Q x post thrown) :
    Safe during (fun s => P ∧ Q s) x post thrown :=
  fun w hw => h hw.1 w hw.2

theorem safe_pure {a : α} (h : ∀ s, pre s → post a s) :
    Safe during pre (pure a : EStateM ε (Watched σ) α) post thrown :=
  fun w hw => ⟨h w.now hw, grows_refl during w⟩

/-- One operation: the state after it is noted. -/
theorem safe_step {f : ε' → ε} {y : EStateM ε' σ α}
    (h : ∀ s, pre s →
      match y s with
      | .ok a s' => during s' ∧ post a s'
      | .error _ s' => during s' ∧ thrown s') :
    Safe during pre (step f y) post thrown := by
  intro w hw
  have hend := h w.now hw
  unfold step
  cases hrun : y w.now with
  | ok a s =>
      rw [hrun] at hend
      exact ⟨hend.2, grows_note w hend.1⟩
  | error e s =>
      rw [hrun] at hend
      exact ⟨hend.2, grows_note w hend.1⟩

/-- What was noted before is part of the run. -/
theorem Ends.after {w w' : Watched σ} {r : EStateM.Result ε (Watched σ) α}
    (hgrows : Grows during w w') (h : Ends during post thrown w' r) :
    Ends during post thrown w r := by
  cases r with
  | ok a w'' => exact ⟨h.1, hgrows.trans h.2⟩
  | error e w'' => exact ⟨h.1, hgrows.trans h.2⟩

/-- One program after another. -/
theorem Safe.bind {f : α → EStateM ε (Watched σ) β} {mid : α → σ → Prop}
    {last : β → σ → Prop} (hx : Safe during pre x mid thrown)
    (hf : ∀ a, Safe during (mid a) (f a) last thrown) :
    Safe during pre (x >>= f) last thrown := by
  intro w hw
  have hfirst := hx w hw
  cases hrun : x w with
  | error e w' =>
      rw [hrun] at hfirst
      rw [run_bind_of_error hrun]
      exact hfirst
  | ok a w' =>
      rw [hrun] at hfirst
      rw [run_bind_of_ok hrun]
      exact (hf a w' hfirst.1).after hfirst.2

/-- An exception that is caught. -/
theorem Safe.caught {Q : Option α → σ → Prop} {T : σ → Prop} (hx : Safe during pre x post thrown)
    (hpost : ∀ a s, post a s → Q (some a) s) (hthrown : ∀ s, thrown s → Q none s) :
    Safe during pre (caught x) Q T := by
  intro w hw
  have h := hx w hw
  unfold Run.caught
  cases hrun : x w with
  | ok a w' =>
      rw [hrun] at h
      exact ⟨hpost a _ h.1, h.2⟩
  | error e w' =>
      rw [hrun] at h
      exact ⟨hthrown _ h.1, h.2⟩

/-- An exception as a value. -/
def tried (x : EStateM ε σ α) : EStateM ε σ (Except ε α) := fun s =>
  match x s with
  | .ok a s' => .ok (.ok a) s'
  | .error e s' => .ok (.error e) s'

theorem Safe.tried {Q : Except ε α → σ → Prop} {T : σ → Prop} (hx : Safe during pre x post thrown)
    (hpost : ∀ a s, post a s → Q (.ok a) s) (hthrown : ∀ e s, thrown s → Q (.error e) s) :
    Safe during pre (tried x) Q T := by
  intro w hw
  have h := hx w hw
  unfold Watch.tried
  cases hrun : x w with
  | ok a w' =>
      rw [hrun] at h
      exact ⟨hpost a _ h.1, h.2⟩
  | error e w' =>
      rw [hrun] at h
      exact ⟨hthrown e _ h.1, h.2⟩

end Rules

/-- What is safe, is: in every noted state. -/
theorem Safe.during_of_mem_noted {during pre : σ → Prop} {post : α → σ → Prop}
    {thrown : σ → Prop} {x : EStateM ε (Watched σ) α} (h : Safe during pre x post thrown) {s s' : σ}
    (hs : pre s) (hs' : s' ∈ noted x s) : during s' := by
  have hend := h (start s) hs
  unfold noted at hs'
  cases hrun : x (start s) with
  | ok a w =>
      rw [hrun] at hend hs'
      obtain ⟨-, new, hnew, hall, -⟩ := hend
      have hmem : s' ∈ w.past := hs'
      rw [hnew] at hmem
      exact hall s' hmem
  | error e w =>
      rw [hrun] at hend hs'
      obtain ⟨-, new, hnew, hall, -⟩ := hend
      have hmem : s' ∈ w.past := hs'
      rw [hnew] at hmem
      exact hall s' hmem

/-- The states in which a system can be found: at the beginning, after something has
happened to it between two runs, and when a run of one of its programs was stopped after
any of its operations, the last one included. -/
inductive Found {ι : Type} (begins : σ → Prop) (between : σ → σ → Prop)
    (main : ι → EStateM ε (Watched σ) α) : σ → Prop
  | begins {s : σ} : begins s → Found begins between main s
  | between {s s' : σ} : Found begins between main s → between s s' →
      Found begins between main s'
  | stopped {s s' : σ} (i : ι) : Found begins between main s → s' ∈ noted (main i) s →
      Found begins between main s'

/-- **The invariant rule**: what holds at the beginning, is kept between runs, and is kept
by a run in every state it notes, is found at any time. -/
theorem Found.induction {ι : Type} {begins : σ → Prop} {between : σ → σ → Prop}
    {main : ι → EStateM ε (Watched σ) α} {P : σ → Prop} (hbegins : ∀ s, begins s → P s)
    (hbetween : ∀ s s', P s → between s s' → P s')
    (hmain : ∀ i s s', Found begins between main s → P s → s' ∈ noted (main i) s → P s') {s : σ}
    (h : Found begins between main s) : P s := by
  induction h with
  | begins hs => exact hbegins _ hs
  | between hfound hstep ih => exact hbetween _ _ ih hstep
  | stopped i hfound hmem ih => exact hmain i _ _ hfound ih hmem

end Watch
