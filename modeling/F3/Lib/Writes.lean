import Mathlib.Logic.Function.Basic
import Mathlib.Data.List.Basic

/-! Variables written one after the other: each ends with what was written to it last, and
one that was not written with what it had. -/
namespace F3.Lib.Writes

variable {κ ν : Type} [DecidableEq κ]

def write (f : κ → ν) (l : List (κ × ν)) : κ → ν := l.foldl (fun f e => Function.update f e.1 e.2) f

theorem writeCons (f : κ → ν) (e : κ × ν) (l : List (κ × ν)) :
    write f (e::l) = write (Function.update f e.1 e.2) l := rfl

theorem writeLast (f : κ → ν) (l : List (κ × ν)) (k : κ) (v : ν) : write f (l ++ [(k,v)]) k = v := by
  simp [write]

theorem unwritten (f : κ → ν) {l : List (κ × ν)} {k : κ} (never : k ∉ l.map Prod.fst) : write f l k = f k := by
  induction l generalizing f with
  | nil => rfl
  | cons e rest ih =>
    obtain ⟨other,never⟩ : k ≠ e.1 ∧ k ∉ rest.map Prod.fst := by simpa using never
    rw [writeCons,ih _ never,Function.update_of_ne other]

theorem written {l : List (κ × ν)} {k : κ} (ever : k ∈ l.map Prod.fst) :
    ∃ v, (k,v) ∈ l ∧ ∀ f : κ → ν, write f l k = v := by
  induction l with
  | nil => simp at ever
  | cons e rest ih =>
    by_cases later : k ∈ rest.map Prod.fst
    · obtain ⟨v,mem,last⟩ := ih later
      exact ⟨v,List.mem_cons_of_mem e mem,fun f => last _⟩
    · obtain rfl : k = e.1 := by simpa [later] using ever
      refine ⟨e.2,List.mem_cons_self,fun f => ?_⟩
      rw [writeCons,unwritten _ later,Function.update_self]

end F3.Lib.Writes
