import TrashClear.Android.GeneratorSpec
import TrashClear.Library.Transactions

/-!
# The transactions of the Android generators

Each generator begins a transaction, and ends it only after its last line.  So a line
that the parser throws on, or a row that its table refuses, leaves the transaction begun:
`run_balanced_iff` says when a call leaves the nesting as it was.

The rows of a call that threw are not lost track of: `durable_later_of_throw` says that
no transaction begun and ended afterwards makes them durable, nor anything else.
-/

namespace TrashClear.Android

open Java Run Store

variable (p : Platform)

def run : Generator → Option (List JString) → SQLiteDatabase Unit
  | .root => genRootData p
  | .sub => genSubData p
  | .description => genSubPathDescription
  | .app => genAppInfo

/-- All lines are read, and the tables take what is inserted for the accepted ones. -/
def Taken {α : Type} (parse : JString → Except Throwable (Option α))
    (change : Database → α → Except Throwable Database) (lines : Option (List JString))
    (db : Database) : Prop :=
  ∃ ls infos db', lines = some ls ∧ collect parse ls = .ok infos ∧
    infos.foldlM change db = .ok db'

/-- All lines of a generator are read and taken. -/
def RunTaken : Generator → Option (List JString) → Database → Prop
  | .root => Taken parseRootPathLine (changeRoot p)
  | .sub => Taken parseSubPath fun db info =>
      subPathValues p info >>= fun cv => insertRow tableSubPath cv db
  | .description => Taken parseTrashInfoDesc fun db info =>
      insertRow tableSubPathDescription (descriptionValues info) db
  | .app => Taken parseTrashInfoDesc fun db info =>
      insertRow tableSubPathDescription (appInfoValues info) db

/-! ## One generator -/

section Loop

variable {α : Type} {parse : JString → Except Throwable (Option α)}
  {insert : α → SQLiteDatabase Unit} {change : Database → α → Except Throwable Database}

/-- The body changes only what the session sees when its insertions do. -/
theorem inner_eachLine (hinsert : ∀ info, Session.Inner (insert info))
    (lines : Option (List JString)) : Session.Inner (eachLine parse insert lines) := by
  refine (Session.inner_attempt _).bind fun ls => Session.Inner.forM (fun line => ?_) ls
  refine (Session.inner_attempt _).bind fun o => ?_
  cases o with
  | none => exact Session.inner_pure ()
  | some info => exact hinsert info

/-- The body returns exactly when all lines are read and taken. -/
theorem eachLine_returns_iff
    (hinsert : ∀ info, Acts Session.view Session.Inside (insert info) fun db => change db info)
    {lines : Option (List JString)} {s : Session Database} (hs : s.Inside) :
    (∃ s', eachLine parse insert lines s = .ok () s') ↔ Taken parse change lines s.working := by
  have hview : Session.view.get s = s.working := rfl
  simp only [acts_eachLine hinsert lines s hs, hview, changeEach_eq_ok]
  constructor
  · intro h
    obtain ⟨_, db', ⟨ls, infos, hls, hinfos, hfold⟩, rfl⟩ := h
    exact ⟨ls, infos, db', hls, hinfos, hfold⟩
  · intro h
    obtain ⟨ls, infos, db', hls, hinfos, hfold⟩ := h
    exact ⟨_, db', ⟨ls, infos, hls, hinfos, hfold⟩, rfl⟩

end Loop

/-- **Each generator is one transaction** around a body that changes only what the
session sees, and that returns exactly when all lines are read and taken. -/
theorem run_eq_transaction (g : Generator) (lines : Option (List JString)) :
    ∃ body, run p g lines = Session.transaction .illegalState body ∧ Session.Inner body ∧
      ∀ s, s.Inside → ((∃ s', body s = .ok () s') ↔ RunTaken p g lines s.working) := by
  have hinsert (table : String) (values : ContentValues) :
      Session.Inner (insertOrThrow table values) := Session.inner_write _
  cases g with
  | root =>
      have hinner (info : RootPathInfo) : Session.Inner (insertRoot p info) :=
        (Session.inner_attempt _).bind fun values => (hinsert _ values).bind fun _ =>
          Session.Inner.forM (fun pkg => hinsert _ (pkgValues info pkg)) info.pkgs
      exact ⟨_, forEachLine_eq lines, inner_eachLine hinner lines,
        fun s hs => eachLine_returns_iff (acts_insertRoot p) hs⟩
  | sub =>
      have hinner (info : SubPathInfo) : Session.Inner
          (do insertOrThrow tableSubPath (← attempt (subPathValues p info))) :=
        (Session.inner_attempt _).bind fun values => hinsert _ values
      exact ⟨_, forEachLine_eq lines, inner_eachLine hinner lines,
        fun s hs => eachLine_returns_iff (acts_insertSub p) hs⟩
  | description =>
      exact ⟨_, forEachLine_eq lines, inner_eachLine (fun info => hinsert _ _) lines,
        fun s hs => eachLine_returns_iff (fun info => acts_insertOrThrow _ _) hs⟩
  | app =>
      exact ⟨_, forEachLine_eq lines, inner_eachLine (fun info => hinsert _ _) lines,
        fun s hs => eachLine_returns_iff (fun info => acts_insertOrThrow _ _) hs⟩

/-! ## The nesting -/

/-- **A generator leaves the transactions nested as they were, and nothing of a call that
throws is ever durable, exactly when** its transaction cannot be begun, so that it does
nothing, or all lines are read and taken. -/
theorem run_balanced_iff (g : Generator) (lines : Option (List JString)) (s : Session Database) :
    Session.Balanced .illegalState (run p g lines) s ↔
      s.Closed ∨ RunTaken p g lines s.working := by
  obtain ⟨body, hrun, hinner, hreturns⟩ := run_eq_transaction p g lines
  have hentered : s.entered.Inside := by simp [Session.Inside, Session.entered]
  have hworking : s.entered.working = s.working := rfl
  rw [hrun, Session.balanced_transaction_iff .illegalState hinner, hreturns _ hentered, hworking]

/-- A line of the root file whose application id is no number leaves the transaction
begun. -/
theorem not_balanced_root_number :
    ¬ Session.Balanced .illegalState
      (genRootData plainPlatform (some [js "1;x;n;p;q;2;7;0;0"]))
      (Session.opened (createdFrom fun _ => none)) := by
  have hline : parseRootPathLine (js "1;x;n;p;q;2;7;0;0") = .error .numberFormat := by
    decide +kernel
  have hthrow : genRootData plainPlatform (some [js "1;x;n;p;q;2;7;0;0"])
      (Session.opened (createdFrom fun _ => none)) =
        .error .numberFormat (Session.opened (createdFrom fun _ => none)).entered := by
    refine Session.run_transaction_of_error _ (by simp [Session.Closed, Session.opened]) ?_
    refine run_bind_error.mpr (Or.inr ⟨_, _, rfl, run_bind_error.mpr (Or.inl ?_)⟩)
    refine run_bind_error.mpr (Or.inl ?_)
    simp [attempt, hline]
  intro h
  have hdepth := h.thrown _ _ hthrow
  simp [Session.depth, Session.entered] at hdepth

/-- **Nothing is ever durable of a call that threw**, nor of the transactions that are
begun and ended after it: they join the one that it left begun. -/
theorem durable_later_of_throw {g : Generator} {lines : Option (List JString)}
    {s s' : Session Database} {e : Throwable} (hclosed : ¬ s.Closed)
    (h : run p g lines s = .error e s') {ops : List (Session.Op Throwable Database)}
    (hops : Session.Bracketed ops) :
    (Session.later .illegalState ops s').durable = s.durable ∧
      (Session.later .illegalState ops s').depth = s.depth + 1 := by
  obtain ⟨body, hrun, hinner, _⟩ := run_eq_transaction p g lines
  rw [hrun] at h
  obtain ⟨⟨level, hlevels, _⟩, hdurable⟩ :=
    hops.pending .illegalState (Session.pending_of_error .illegalState hinner hclosed h)
  refine ⟨hdurable, ?_⟩
  unfold Session.depth
  rw [hlevels, List.length_cons]

end TrashClear.Android
