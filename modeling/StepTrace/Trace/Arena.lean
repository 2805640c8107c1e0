import StepTrace.Trace.Record

/-!
# Arenas

The records of one type, each at the place where it was put first.  Records are changed in place and
never taken out, so a reference keeps its meaning for good.
-/

namespace StepTrace

/-- The records of one type. -/
structure Arena (α : Type) where
  records : Array α := #[]
deriving Inhabited

namespace Arena

variable {α : Type}

/-- The record at a place; references are only made by `add`, so there is one. -/
def get [Inhabited α] (a : Arena α) (r : Ref α) : α :=
  a.records[r.index]?.getD default

/-- The arena with one more record, and the place of that record. -/
def add (a : Arena α) (x : α) : Arena α × Ref α :=
  (⟨a.records.push x⟩, ⟨a.records.size⟩)

/-- The arena with the record at a place changed. -/
def modify (a : Arena α) (r : Ref α) (f : α → α) : Arena α :=
  ⟨a.records.modify r.index f⟩

/-- Has the place been given out? -/
def Holds (a : Arena α) (r : Ref α) : Prop :=
  r.index < a.records.size

variable [Inhabited α]

theorem get_add_self (a : Arena α) (x : α) : (a.add x).1.get (a.add x).2 = x := by
  simp [add, get]

theorem get_add_of_holds {a : Arena α} {r : Ref α} (x : α) (h : a.Holds r) :
    (a.add x).1.get r = a.get r := by
  simp only [Holds] at h
  simp [add, get, Array.getElem?_push, Nat.ne_of_lt h]

theorem get_modify_self {a : Arena α} {r : Ref α} (f : α → α) (h : a.Holds r) :
    (a.modify r f).get r = f (a.get r) := by
  simp only [Holds] at h
  simp [modify, get, Array.getElem_modify, h]

theorem get_modify_of_ne {a : Arena α} {r other : Ref α} (f : α → α) (h : other ≠ r) :
    (a.modify r f).get other = a.get other := by
  have : r.index ≠ other.index := by
    intro heq
    apply h
    cases r
    cases other
    simp_all
  simp [modify, get, Array.getElem?_modify, this]

end Arena

end StepTrace
