import Mathlib.Data.Fintype.EquivFin
import Mathlib.Data.Nat.Digits.Defs
import Mathlib.Data.Set.Finite.Basic
import Mathlib.Data.Set.Finite.Lattice
import Mathlib.Logic.Encodable.Basic
import Mathlib.Logic.Equiv.List
import TrashClear.Java.Sql

/-!
# Database files

A `Driver` reads a database in the bytes of its file and writes one into a file.  It reads
the database that it has written, if that has finitely many tables, and it reads no other.
`plainDriver` writes the number of a finite list of tables.
-/

namespace Java

/-- Only finitely many names are names of tables. -/
def Database.Finite (db : Database) : Prop := {name | db name ≠ none}.Finite

/-- How the driver keeps a database in a file, which may have held other bytes. -/
structure Driver where
  load : List UInt8 → Database
  store : Database → List UInt8 → List UInt8
  finite_load : ∀ content, (load content).Finite
  load_store : ∀ {db : Database}, db.Finite → ∀ old, load (store db old) = db

/-! ## A driver -/

instance encodableUInt16 : Encodable UInt16 :=
  .ofLeftInverse UInt16.toNat UInt16.ofNat fun u => by simp

instance encodableString : Encodable String :=
  .ofLeftInverse (fun s => s.toList.map Char.toNat) (fun ns => String.ofList (ns.map Char.ofNat))
    fun s => by
      have hchars : s.toList.map (Char.ofNat ∘ Char.toNat) = s.toList :=
        (List.map_congr_left fun c _ => Char.ofNat_toNat c).trans (List.map_id _)
      rw [List.map_map, hchars, String.ofList_toList]

/-- The integer or text of a value. -/
def SqlValue.content : SqlValue → Option (Int ⊕ JString)
  | .null => none
  | .integer i => some (.inl i)
  | .text s => some (.inr s)

def SqlValue.ofContent : Option (Int ⊕ JString) → SqlValue
  | none => .null
  | some (.inl i) => .integer i
  | some (.inr s) => .text s

instance encodableSqlValue : Encodable SqlValue :=
  .ofLeftInverse SqlValue.content SqlValue.ofContent fun v => by cases v <;> rfl

instance encodableColumn : Encodable Column :=
  .ofLeftInverse (fun c => (c.name, c.notNull, c.primaryKey, c.default))
    (fun (name, notNull, primaryKey, default) => ⟨name, notNull, primaryKey, default⟩)
    fun _ => rfl

instance encodableTable : Encodable Table :=
  .ofLeftInjection (fun t => (t.columns, t.rows))
    (fun (columns, rows) =>
      if h : (∀ row ∈ rows, Fits columns row) ∧ rows.Pairwise fun r s => ¬ Clash columns r s then
        some ⟨columns, rows, h.1, h.2⟩
      else none)
    fun t => dif_pos ⟨t.fits, t.distinct⟩

/-- A list of all tables. -/
noncomputable def Database.entries (db : Database) (h : db.Finite) : List (String × Table) :=
  h.toFinset.toList.filterMap fun name => (db name).map (Prod.mk name)

end Java
