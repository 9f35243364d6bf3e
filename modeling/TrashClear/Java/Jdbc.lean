import TrashClear.Java.Sql

/-!
# JDBC connections and prepared statements

A connection that was switched out of auto-commit has one transaction pending:
`executeBatch` and `executeUpdate` change what the connection sees, and only
`commit` makes it durable.  A `PreparedStatement` has the current values of its
parameters, which stay as they are from one `addBatch` to the next, and the
batch collected so far.

`acts_prepareStatement_bind` and `acts_executeBatch` are the rules for compiling
and executing a batch.
-/

namespace Java

open Run Store

/-- Programs over a connection to a database. -/
abbrev Jdbc := EStateM Throwable (Connection Database)

structure PreparedStatement where
  insertion : Insertion
  params : Nat → SqlValue
  batch : List (List SqlValue)

namespace PreparedStatement

/-- A statement without parameter values and without a batch. -/
def fresh (ins : Insertion) : PreparedStatement := ⟨ins, fun _ => .null, []⟩

def setInt (stmt : PreparedStatement) (i : Nat) (v : Int32) : PreparedStatement :=
  { stmt with params := Function.update stmt.params i (int v) }

def setString (stmt : PreparedStatement) (i : Nat) (v : JString) : PreparedStatement :=
  { stmt with params := Function.update stmt.params i (.text v) }

/-- Add the current parameter values to the batch. -/
def addBatch (stmt : PreparedStatement) : PreparedStatement :=
  { stmt with
    batch := stmt.batch ++ [(List.range' 1 stmt.insertion.count).map stmt.params] }

/-- `stmt'` is `stmt` with more rows in its batch and any parameter values. -/
def Grew (stmt : PreparedStatement) (values : List (List SqlValue)) (stmt' : PreparedStatement) :
    Prop :=
  stmt'.insertion = stmt.insertion ∧ stmt'.batch = stmt.batch ++ values

theorem grew_nil (stmt : PreparedStatement) : stmt.Grew [] stmt := ⟨rfl, by simp⟩

theorem Grew.trans {s₁ s₂ s₃ : PreparedStatement} {values values' : List (List SqlValue)}
    (h : s₁.Grew values s₂) (h' : s₂.Grew values' s₃) : s₁.Grew (values ++ values') s₃ :=
  ⟨h'.1.trans h.1, by rw [h'.2, h.2, List.append_assoc]⟩

/-- What `addBatch` adds, once the parameter values are known. -/
theorem grew_addBatch {stmt stmt' : PreparedStatement} {n : Nat} {values : List SqlValue}
    (hins : stmt'.insertion = stmt.insertion) (hbatch : stmt'.batch = stmt.batch)
    (hcount : stmt.insertion.count = n)
    (hvalues : (List.range' 1 n).map stmt'.params = values) :
    stmt.Grew [values] stmt'.addBatch :=
  ⟨hins, by simp [addBatch, hins, hbatch, hcount, hvalues]⟩

end PreparedStatement

/-- Compile an insertion. -/
def prepareStatement (ins : Insertion) : Jdbc PreparedStatement := do
  Connection.check ins.prepare
  return .fresh ins

/-- Execute the batch row by row, up to the first exception. -/
def executeBatch (stmt : PreparedStatement) : Jdbc Unit :=
  stmt.batch.forM fun values => Connection.update (stmt.insertion.run values)

theorem keeps_prepareStatement (ins : Insertion) : Connection.Keeps (prepareStatement ins) :=
  (Connection.keeps_check _).bind (fun _ => Connection.keeps_pure _)

theorem keeps_executeBatch (stmt : PreparedStatement) : Connection.Keeps (executeBatch stmt) :=
  Connection.Keeps.forM (fun _ => Connection.keeps_update _) _

/-- The compile step, as a function of what the connection sees. -/
theorem acts_prepareStatement_bind {ins : Insertion} {k : PreparedStatement → Jdbc Unit}
    {f : Database → Except Throwable Database}
    (hk : Store.Acts Connection.view (fun _ => True) (k (.fresh ins)) f) :
    Store.Acts Connection.view (fun _ => True) (prepareStatement ins >>= k)
      (fun db => ins.prepare db >>= fun _ => f db) := by
  have hbind : (prepareStatement ins >>= k) =
      (Connection.check ins.prepare >>= fun _ => k (.fresh ins)) := by
    unfold prepareStatement
    rw [bind_assoc]
    rfl
  rw [hbind]
  exact Connection.acts_check_bind (fun _ => hk)

theorem acts_executeBatch (stmt : PreparedStatement) :
    Store.Acts Connection.view (fun _ => True) (executeBatch stmt)
      (fun db => stmt.batch.foldlM (fun db values => stmt.insertion.run values db) db) :=
  Store.Acts.forM (fun _ _ _ => trivial) (fun _ => Connection.acts_update _) _

end Java
