import Mathlib.Logic.Basic

/-! A partial copy of a naming: what the copy names, the original names with an entry of the
same kind, and two names of one entry of the copy are two names of one entry of the original.
Entries that belong together are followed through the changes of both. -/
namespace F3.Lib.Mirror

variable {π α β κ : Type} {kind : α → κ} {kindOf : β → κ} {F F' : π → Option α} {I I' : π → Option β}

structure Mirrors (kind : α → κ) (kindOf : β → κ) (F : π → Option α) (I : π → Option β) : Prop where
  there : ∀ {q x}, I q = some x → ∃ y, F q = some y ∧ kind y = kindOf x
  same : ∀ {q r x}, I q = some x → I r = some x → F q = F r

def Pairs (F : π → Option α) (I : π → Option β) (y : α) (x : β) : Prop := ∀ q, I q = some x → F q = some y

def Covers (F : π → Option α) (I : π → Option β) (y : α) (copy : Option β) : Prop :=
  ∀ q x, F q = some y → I q = some x → copy = some x

/- A change after which every name of the copy stands for what some name stood for before:
names that go, names that move in both, and any change of the original beside the copy. -/
def Follows (F : π → Option α) (I : π → Option β) (F' : π → Option α) (I' : π → Option β) : Prop :=
  ∀ q x, I' q = some x → ∃ r, I r = some x ∧ F' q = F r

section Follows

theorem Follows.trans {F'' : π → Option α} {I'' : π → Option β} (one : Follows F I F' I')
    (two : Follows F' I' F'' I'') : Follows F I F'' I'' := by
  intro q x now
  obtain ⟨r,before,same⟩ := two q x now
  obtain ⟨s,first,again⟩ := one r x before
  exact ⟨s,first,same.trans again⟩

theorem Follows.mirrors (follows : Follows F I F' I') (mirrors : Mirrors kind kindOf F I) :
    Mirrors kind kindOf F' I' := by
  constructor
  · intro q x now
    obtain ⟨r,before,same⟩ := follows q x now
    rw [same]
    exact mirrors.there before
  · intro q q' x now also
    obtain ⟨r,before,same⟩ := follows q x now
    obtain ⟨r',before',same'⟩ := follows q' x also
    rw [same,same',mirrors.same before before']

theorem Follows.pairs {y x} (follows : Follows F I F' I') (pairs : Pairs F I y x) : Pairs F' I' y x := by
  intro q now
  obtain ⟨r,before,same⟩ := follows q x now
  rw [same]
  exact pairs r before

theorem Follows.covers {y copy} (follows : Follows F I F' I') (covers : Covers F I y copy) :
    Covers F' I' y copy := by
  intro q x named now
  obtain ⟨r,before,same⟩ := follows q x now
  exact covers r x (same.symm.trans named) before

end Follows

structure Adds (kind : α → κ) (kindOf : β → κ) (F : π → Option α) (I I' : π → Option β) (t : π) (y : α)
    (x : β) : Prop where
  each : ∀ q z, I' q = some z → I q = some z ∨ q = t ∧ z = x
  original : F t = some y
  alike : kind y = kindOf x
  pairs : Pairs F I y x

section Adds
variable {t : π} {y : α} {x : β}

theorem Adds.mirrors (adds : Adds kind kindOf F I I' t y x) (mirrors : Mirrors kind kindOf F I) :
    Mirrors kind kindOf F I' := by
  constructor
  · intro q z now
    rcases adds.each q z now with before | ⟨rfl,rfl⟩
    · exact mirrors.there before
    · exact ⟨y,adds.original,adds.alike⟩
  · intro q r z now also
    rcases adds.each q z now with before | ⟨rfl,rfl⟩ <;> rcases adds.each r _ also with again | ⟨rfl,new⟩
    · exact mirrors.same before again
    · rw [adds.pairs q (new ▸ before),adds.original]
    · rw [adds.pairs r again,adds.original]
    · rfl

theorem Adds.pair {y' x'} (adds : Adds kind kindOf F I I' t y x) (other : x' = x → y' = y)
    (pairs : Pairs F I y' x') : Pairs F I' y' x' := by
  intro q now
  rcases adds.each q x' now with before | ⟨rfl,new⟩
  · exact pairs q before
  · rw [adds.original,other new]

theorem Adds.covers {y' copy} (adds : Adds kind kindOf F I I' t y x) (here : y' = y → copy = some x)
    (covers : Covers F I y' copy) : Covers F I' y' copy := by
  intro q z named now
  rcases adds.each q z now with before | ⟨rfl,rfl⟩
  · exact covers q z named before
  · exact here (Option.some.inj (named.symm.trans adds.original))

end Adds

end F3.Lib.Mirror
