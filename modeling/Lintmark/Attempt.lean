/-
Attempts at something that somebody else has a part in: a file that is read, a command that
is run, a worker that is waited for.
-/
namespace Lintmark

/-- What comes of an attempt: it ends with a result, the one who makes it breaks down, or
it goes on for ever. -/
inductive Attempt (α : Type) where
  | ends (result : α)
  | breaks
  | never
deriving Repr, DecidableEq

namespace Attempt

variable {α β γ : Type}

def map (f : α → β) : Attempt α → Attempt β
  | ends a => ends (f a)
  | breaks => breaks
  | never => never

/-- Go on with the result of an attempt. -/
def bind (a : Attempt α) (f : α → Attempt β) : Attempt β :=
  match a with
  | ends a => f a
  | breaks => breaks
  | never => never

def result? : Attempt α → Option α
  | ends a => some a
  | _ => none

def isBroken : Attempt α → Bool
  | breaks => true
  | _ => false

def isNever : Attempt α → Bool
  | never => true
  | _ => false

def Ends (a : Attempt α) : Prop :=
  ∃ result, a = ends result

variable {a : Attempt α} {b : β} {f : α → β}

theorem ends_iff : a.Ends ↔ a ≠ .breaks ∧ a ≠ .never := by
  cases a <;> simp [Ends]

theorem isNever_iff : a.isNever ↔ a = .never := by
  cases a <;> simp [isNever]

@[simp] theorem map_ends (f : α → β) (result : α) : (ends result).map f = ends (f result) :=
  rfl

theorem map_eq_ends_iff : a.map f = .ends b ↔ ∃ result, a = .ends result ∧ f result = b := by
  cases a <;> simp [map]

theorem map_eq_never_iff : a.map f = .never ↔ a = .never := by
  cases a <;> simp [map]

theorem ends_map_iff : (a.map f).Ends ↔ a.Ends := by
  cases a <;> simp [map, Ends]

theorem bind_eq_ends_iff {f : α → Attempt β} :
    a.bind f = .ends b ↔ ∃ result, a = .ends result ∧ f result = .ends b := by
  cases a <;> simp [bind]

theorem map_map (g : β → γ) (f : α → β) (a : Attempt α) :
    (a.map f).map g = a.map (g ∘ f) := by
  cases a <;> rfl

end Attempt

end Lintmark
