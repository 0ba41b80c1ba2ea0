import MetricBoard.Target

/-!
# One of each per server
-/

namespace MetricBoard

/-- A value for each of the two servers. -/
structure PerTarget (α : Type) where
  relational : α
  fileDatabase : α
  deriving DecidableEq, Repr

namespace PerTarget

variable {α : Type}

/-- The same value for both servers. -/
def const (a : α) : PerTarget α := ⟨a, a⟩

/-- The value for a server. -/
def get (p : PerTarget α) : Target → α
  | .relational => p.relational
  | .fileDatabase => p.fileDatabase

/-- The values with another one for a server. -/
def set (p : PerTarget α) (t : Target) (a : α) : PerTarget α :=
  match t with
  | .relational => { p with relational := a }
  | .fileDatabase => { p with fileDatabase := a }

/-- The values with the one for a server changed. -/
def modify (p : PerTarget α) (t : Target) (f : α → α) : PerTarget α := p.set t (f (p.get t))

@[simp] theorem get_const (a : α) (t : Target) : (const a).get t = a := by
  cases t <;> rfl

@[simp] theorem get_set_self (p : PerTarget α) (t : Target) (a : α) : (p.set t a).get t = a := by
  cases t <;> rfl

theorem get_set_of_ne (p : PerTarget α) {t u : Target} (a : α) (h : u ≠ t) :
    (p.set t a).get u = p.get u := by
  cases t <;> cases u <;> first | rfl | exact absurd rfl h

@[simp] theorem get_modify_self (p : PerTarget α) (t : Target) (f : α → α) :
    (p.modify t f).get t = f (p.get t) := get_set_self ..

theorem get_modify_of_ne (p : PerTarget α) {t u : Target} (f : α → α) (h : u ≠ t) :
    (p.modify t f).get u = p.get u := get_set_of_ne _ _ h

end PerTarget

end MetricBoard
