/-!
# Runs that May Panic

How a run of a program ends, where a program can do more than return: it can
reach its panic handler, or make an access that has no meaning. The two are
kept apart, since a panic is something the language defines and the program
asks for, by indexing, by unwrapping or by dividing.

The operations that can panic are functions into `Ending`. A program that is
written with them panics exactly where one of them does, and to show that it
does not is to show each of them guarded.

## Main definitions

* `Ending`: A run that returns, panics, or has no meaning.
* `bind`, `map`, `ofOption`: Putting runs together.
* `index`, `unwrap`, `rem`, `div`: The operations that can panic.

## Theorems

* `index_of_lt`, `rem_of_ne`, `div_of_ne`: They do not where they are guarded.
* `ofOption_map`: A run without panics, and what is made of its result.
* `map_returns_iff`: It returns where the run does.
-/

/-- How a run ends. -/
inductive Ending (α : Type _) where
  | returned (a : α)
  | panicked
  | faulted
deriving DecidableEq, Repr

namespace Ending

variable {α β : Type _}

/-- One run after another. -/
def bind (o : Ending α) (f : α → Ending β) : Ending β :=
  match o with
  | returned a => f a
  | panicked => panicked
  | faulted => faulted

def map (f : α → β) (o : Ending α) : Ending β :=
  o.bind fun a => returned (f a)

/-- A run that has no meaning where there is no value. -/
def ofOption : Option α → Ending α
  | none => faulted
  | some a => returned a

/-- `unwrap`. -/
def unwrap : Option α → Ending α
  | none => panicked
  | some a => returned a

/-- `xs[i]`. -/
def index (xs : List α) (i : Nat) : Ending α :=
  unwrap xs[i]?

/-- `a % b`. -/
def rem [Mod α] [OfNat α 0] [DecidableEq α] (a b : α) : Ending α :=
  if b = 0 then panicked else returned (a % b)

/-- `a / b`. -/
def div [Div α] [OfNat α 0] [DecidableEq α] (a b : α) : Ending α :=
  if b = 0 then panicked else returned (a / b)

@[simp] theorem returned_bind (a : α) (f : α → Ending β) : (returned a).bind f = f a := rfl

@[simp] theorem map_returned (f : α → β) (a : α) : (returned a).map f = returned (f a) := rfl

@[simp] theorem ofOption_some (a : α) : ofOption (some a) = returned a := rfl

@[simp] theorem ofOption_none : ofOption (none : Option α) = faulted := rfl

theorem index_of_lt (xs : List α) (i : Nat) (h : i < xs.length) : index xs i = returned xs[i] := by
  rw [index, List.getElem?_eq_getElem h]
  rfl

theorem rem_of_ne [Mod α] [OfNat α 0] [DecidableEq α] (a b : α) (h : ¬ b = 0) :
    rem a b = returned (a % b) :=
  if_neg h

theorem div_of_ne [Div α] [OfNat α 0] [DecidableEq α] (a b : α) (h : ¬ b = 0) :
    div a b = returned (a / b) :=
  if_neg h

theorem ofOption_map (x : Option α) (f : α → β) :
    (ofOption x).map f = ofOption (x.map f) := by
  cases x with
  | none => rfl
  | some a => rfl

/-- A run returns exactly if its first part does. -/
theorem map_returns_iff (f : α → β) (o : Ending α) :
    (∃ b, o.map f = returned b) ↔ ∃ a, o = returned a := by
  cases o with
  | returned a => exact ⟨fun _ => ⟨a, rfl⟩, fun _ => ⟨f a, rfl⟩⟩
  | panicked =>
      constructor
      · intro ⟨b, hb⟩
        exact absurd hb (by simp only [map, bind, reduceCtorEq, not_false_eq_true])
      · intro ⟨a, ha⟩
        exact absurd ha (by simp only [reduceCtorEq, not_false_eq_true])
  | faulted =>
      constructor
      · intro ⟨b, hb⟩
        exact absurd hb (by simp only [map, bind, reduceCtorEq, not_false_eq_true])
      · intro ⟨a, ha⟩
        exact absurd ha (by simp only [reduceCtorEq, not_false_eq_true])

end Ending
