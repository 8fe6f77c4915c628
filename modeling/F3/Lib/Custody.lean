import Mathlib.Algebra.Order.Group.Multiset
import Mathlib.Data.Multiset.UnionInter

/-! Things that are opened and closed, and the places that hold them. The books are kept
in two entries: what is opened is written down in some place, what is closed is struck
out, and a thing may move from one place to another. -/
namespace F3.Lib.Custody
variable {ρ : Type} {places places' closed opened : Multiset ρ} {before after : ρ → Prop}

structure Owned (places : Multiset ρ) (isOpen : ρ → Prop) : Prop where
  single : places.Nodup
  opened : ∀ x ∈ places, isOpen x

def Accounted (places : Multiset ρ) (isOpen : ρ → Prop) : Prop := ∀ x, isOpen x → x ∈ places

structure Moves (closed opened : Multiset ρ) (before after : ρ → Prop) : Prop where
  once : opened.Nodup
  fresh : ∀ x ∈ opened, ¬ before x ∧ after x
  gone : ∀ x ∈ closed, ¬ after x
  others : ∀ x, x ∉ opened → x ∉ closed → (after x ↔ before x)

theorem movesNone (same : ∀ x, after x ↔ before x) : Moves 0 0 before after :=
  ⟨Multiset.nodup_zero,fun _ mem => absurd mem (Multiset.notMem_zero _),
    fun _ mem => absurd mem (Multiset.notMem_zero _),fun x _ _ => same x⟩

theorem movesAlso {also : Multiset ρ} (moves : Moves closed opened before after)
    (shut : ∀ x ∈ also, ¬ after x) : Moves (closed + also) opened before after := by
  refine ⟨moves.once,moves.fresh,fun x mem => (Multiset.mem_add.mp mem).elim (moves.gone x) (shut x),?_⟩
  intro x new gone
  exact moves.others x new fun mem => gone (Multiset.mem_add.mpr (Or.inl mem))

theorem singleAdd (own : Owned places before) (moves : Moves closed opened before after) :
    (places + opened).Nodup := by
  refine Multiset.nodup_add.mpr ⟨own.single,moves.once,Multiset.disjoint_left.mpr fun {x} held new => ?_⟩
  exact (moves.fresh x new).1 (own.opened x held)

theorem ownedMoves (own : Owned places before) (moves : Moves closed opened before after)
    (books : places' + closed ≤ places + opened) : Owned places' after := by
  have single := Multiset.nodup_of_le books (singleAdd own moves)
  obtain ⟨once,_,apart⟩ := Multiset.nodup_add.mp single
  refine ⟨once,fun x held => ?_⟩
  have stays : x ∉ closed := fun gone => Multiset.disjoint_left.mp apart held gone
  by_cases new : x ∈ opened
  · exact (moves.fresh x new).2
  · have old : x ∈ places + opened := Multiset.mem_of_le books (Multiset.mem_add.mpr (Or.inl held))
    exact (moves.others x new stays).mpr (own.opened x ((Multiset.mem_add.mp old).resolve_right new))

theorem closedOpen (own : Owned places before) (moves : Moves closed opened before after)
    (books : places' + closed ≤ places + opened) : ∀ x ∈ closed, before x := by
  intro x gone
  have old : x ∈ places + opened := Multiset.mem_of_le books (Multiset.mem_add.mpr (Or.inr gone))
  rcases Multiset.mem_add.mp old with held | new
  · exact own.opened x held
  · exact absurd (moves.fresh x new).2 (moves.gone x gone)

theorem accountedMoves (all : Accounted places before) (moves : Moves closed opened before after)
    (books : places + opened ≤ places' + closed) : Accounted places' after := by
  intro x isOpen
  have stays : x ∉ closed := fun gone => moves.gone x gone isOpen
  have known : x ∈ places + opened := by
    by_cases new : x ∈ opened
    · exact Multiset.mem_add.mpr (Or.inr new)
    · exact Multiset.mem_add.mpr (Or.inl (all x ((moves.others x new stays).mp isOpen)))
  exact (Multiset.mem_add.mp (Multiset.mem_of_le books known)).resolve_right stays

end F3.Lib.Custody
