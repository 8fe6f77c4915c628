import Mathlib.Algebra.BigOperators.Group.Finset.Piecewise
import Mathlib.Algebra.Order.BigOperators.Group.Finset
import Mathlib.Data.Finset.Max

/-! Threads that are each at a place of their program. A place says which mutexes the
thread holds; a step moves one thread, and a mutex it has not held before was free. -/
namespace F3.Lib.Threads
open Finset

section Locks
variable {ι σ μ : Type} {held : σ → List μ} {threads : ι → σ}

def Free (held : σ → List μ) (threads : ι → σ) (m : μ) : Prop := ∀ t, m ∉ held (threads t)
instance [Fintype ι] [DecidableEq μ] (m : μ) : Decidable (Free held threads m) := by
  unfold Free; infer_instance

def Exclusive (held : σ → List μ) (threads : ι → σ) : Prop :=
  ∀ {t u m}, m ∈ held (threads t) → m ∈ held (threads u) → t = u

variable [DecidableEq ι]

theorem exclusiveMove {t : ι} {p : σ} (exclusive : Exclusive held threads)
    (taken : ∀ m ∈ held p, m ∈ held (threads t) ∨ Free held threads m) :
    Exclusive held (Function.update threads t p) := by
  have own {u m} (mine : m ∈ held p) (theirs : m ∈ held (threads u)) : u = t :=
    (taken m mine).elim (exclusive theirs) (fun free => absurd theirs (free u))
  intro u v m left right
  by_cases atU : u = t <;> by_cases atV : v = t
  · exact atU.trans atV.symm
  · subst atU
    rw [Function.update_self] at left
    rw [Function.update_of_ne atV] at right
    exact (own left right).symm
  · subst atV
    rw [Function.update_self] at right
    rw [Function.update_of_ne atU] at left
    exact own right left
  · rw [Function.update_of_ne atU] at left
    rw [Function.update_of_ne atV] at right
    exact exclusive left right

end Locks

theorem unblocked {ι : Type} [Fintype ι] (busy blocked : ι → Prop) (rank : ι → Nat)
    (climbs : ∀ {t}, busy t → blocked t → ∃ u, busy u ∧ (blocked u → rank t < rank u)) {t : ι}
    (start : busy t) : ∃ u, busy u ∧ ¬ blocked u := by
  classical
  by_contra none
  have all {u} (is : busy u) : blocked u := by
    by_contra free
    exact none ⟨u,is,free⟩
  obtain ⟨top,member,greatest⟩ := exists_max_image (univ.filter busy) rank ⟨t,by simp [start]⟩
  have isBusy : busy top := (mem_filter.mp member).2
  obtain ⟨u,more,higher⟩ := climbs isBusy (all isBusy)
  have least := greatest u (by simp [more])
  have above := higher (all more)
  omega

section Totals
variable {ι σ : Type} [Fintype ι] {f : σ → Nat} {threads : ι → σ}

def total (f : σ → Nat) (threads : ι → σ) : Nat := ∑ t, f (threads t)

theorem totalZero (none : ∀ t, f (threads t) = 0) : total f threads = 0 :=
  sum_eq_zero fun t _ => none t

theorem leTotal (f : σ → Nat) (threads : ι → σ) (t : ι) : f (threads t) ≤ total f threads :=
  single_le_sum (f := fun u => f (threads u)) (fun _ _ => Nat.zero_le _) (mem_univ t)

theorem totalMove [DecidableEq ι] (f : σ → Nat) (threads : ι → σ) (t : ι) (p : σ) :
    total f (Function.update threads t p) + f (threads t) = total f threads + f p := by
  have place : (fun u => f (Function.update threads t p u)) =
      Function.update (fun u => f (threads u)) t (f p) := by
    funext u
    by_cases here : u = t
    · subst here
      simp
    · simp [Function.update_of_ne here]
  have split := sum_update_of_mem (mem_univ t) (fun u => f (threads u)) (f p)
  have parts := add_sum_erase univ (fun u => f (threads u)) (mem_univ t)
  simp only [total,place,split,sdiff_singleton_eq_erase]
  omega

end Totals

end F3.Lib.Threads
