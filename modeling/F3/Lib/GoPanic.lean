import Mathlib.Data.List.Basic

/-! Go code that can panic. An access outside of a slice does, so do a nil pointer, a call of
panic and rand.Intn of nothing; a loop that never ends hangs. -/
namespace F3.Lib.GoPanic

inductive Panic where
  | indexOutOfRange (index length : Nat)
  | sliceOutOfRange (bound length : Nat)
  | invalidIntn
  | nilPointer
  | called
  deriving DecidableEq, Repr

def Panic.outOfRange : Panic → Bool
  | .indexOutOfRange _ _ => true
  | .sliceOutOfRange _ _ => true
  | .invalidIntn => true
  | _ => false

inductive Go (α : Type) where
  | hangs
  | panics (p : Panic)
  | returns (a : α)
  deriving DecidableEq, Repr

section Ops
variable {α β : Type}

def Go.bind (x : Go α) (f : α → Go β) : Go β := match x with
  | .hangs => .hangs
  | .panics p => .panics p
  | .returns a => f a

instance : Monad Go where
  pure := .returns
  bind := Go.bind

@[simp] theorem bindReturns (a : α) (f : α → Go β) : (Go.returns a >>= f) = f a := rfl

def index (xs : List α) (i : Nat) : Go α := match xs[i]? with
  | some x => .returns x
  | none => .panics (.indexOutOfRange i xs.length)

-- xs[i:]
def sliceFrom (xs : List α) (i : Nat) : Go (List α) :=
  if i ≤ xs.length then .returns (xs.drop i) else .panics (.sliceOutOfRange i xs.length)

-- xs[:len(xs)-1]
def sliceInit (xs : List α) : Go (List α) :=
  if xs = [] then .panics (.sliceOutOfRange 0 0) else .returns xs.dropLast

-- rand.Intn(n) for the number d that was drawn.
def intn (n d : Nat) : Go Nat := if n = 0 then .panics .invalidIntn else .returns (d % n)

@[simp] theorem indexHead (x : α) (xs : List α) : index (x::xs) 0 = .returns x := rfl

@[simp] theorem sliceInitLast (xs : List α) (x : α) : sliceInit (xs ++ [x]) = .returns xs := by
  simp [sliceInit]

theorem sliceFromEnough {xs : List α} {i : Nat} (enough : i ≤ xs.length) :
    sliceFrom xs i = .returns (xs.drop i) := if_pos enough

theorem intnSome {n d : Nat} (some : n ≠ 0) : intn n d = .returns (d % n) := if_neg some

end Ops

end F3.Lib.GoPanic
