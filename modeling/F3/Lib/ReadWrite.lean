import F3.Lib.Run

/-! Updates of a shared value that read it in one atomic step and write it in another. A view
has the value, what the updates that have read and not written have seen, and the arguments
of those that have written. A read is alone when no other update is between its two steps. -/
namespace F3.Lib.ReadWrite
open Lib.Run (run Meets runCons)

structure View (V A : Type) where
  value : V
  reading : List V
  finished : List A

section Moves
variable {V A : Type} {update : A → V → V}

/- What a step does to the view: nothing, one read or one write. Updates keep the places they
have among each other. -/
inductive Move (update : A → V → V) (v : View V A) (alone : Prop) (v' : View V A) : Prop where
  | idle (any : alone) (same : v' = v)
  | read {pre post} (only : alone ↔ v.reading = []) (before : v.reading = pre ++ post)
      (after : v' = ⟨v.value,pre ++ v.value::post,v.finished⟩)
  | write {pre post left right seen a} (any : alone) (before : v.reading = pre ++ seen::post)
      (done : v.finished = left ++ right) (after : v' = ⟨update a seen,pre ++ post,left ++ a::right⟩)

section Serial
variable {expect : List A → V}

def Exact (expect : List A → V) (v : View V A) : Prop :=
  (v.reading = [] ∧ v.value = expect v.finished) ∨ v.reading = [expect v.finished]

theorem exactMove (adds : ∀ left a right, update a (expect (left ++ right)) = expect (left ++ a::right))
    {v v' : View V A} {alone : Prop} (exact_ : Exact expect v) (free : alone)
    (move : Move update v alone v') : Exact expect v' := by
  cases move with
  | idle any same => exact same ▸ exact_
  | read only before after =>
    have none := only.mp free
    rcases exact_ with ⟨_,value⟩ | one
    · obtain ⟨rfl,rfl⟩ := List.append_eq_nil_iff.mp (before.symm.trans none)
      exact .inr (by rw [after,value]; rfl)
    · simp [one] at none
  | write any before done after =>
    rcases exact_ with ⟨none,_⟩ | one
    · simp [none] at before
    · obtain ⟨rfl,rfl,rfl⟩ : _ = [] ∧ _ = expect v.finished ∧ _ = [] := by
        simpa [List.singleton_eq_append_iff] using one.symm.trans before
      exact .inl (by rw [after,done]; exact ⟨rfl,adds _ _ _⟩)

end Serial

section Counted
variable {rank : V → Int}

def Bounded (rank : V → Int) (v : View V A) : Prop :=
  rank v.value ≤ v.finished.length ∧ ∀ seen ∈ v.reading, rank seen ≤ v.finished.length

def Tight (rank : V → Int) (v : View V A) : Prop :=
  (v.reading = [] ∧ rank v.value = v.finished.length) ∨
    ∃ seen, v.reading = [seen] ∧ rank seen = v.finished.length

theorem boundedAt {v : View V A} {pre post : List V} {seen : V} {left right : List A} (bounded : Bounded rank v)
    (before : v.reading = pre ++ seen::post) (done : v.finished = left ++ right) :
    rank seen ≤ left.length + right.length ∧ ∀ other ∈ pre ++ post, rank other ≤ left.length + right.length := by
  have size : (v.finished.length : Int) = left.length + right.length := by
    rw [done,List.length_append,Int.natCast_add]
  rw [← size]
  refine ⟨bounded.2 seen (by simp [before]),fun other mem => bounded.2 other ?_⟩
  rw [before]
  rcases List.mem_append.mp mem with there | there <;> simp [there]

theorem boundedMove (counts : ∀ a seen, rank (update a seen) = rank seen + 1) {v v' : View V A} {alone : Prop}
    (bounded : Bounded rank v) (move : Move update v alone v') : Bounded rank v' := by
  cases move with
  | idle any same => exact same ▸ bounded
  | read only before after =>
    subst after
    refine ⟨bounded.1,fun seen mem => ?_⟩
    rcases List.mem_append.mp mem with old | new
    · exact bounded.2 seen (by rw [before]; exact List.mem_append_left _ old)
    · rcases List.mem_cons.mp new with rfl | old
      · exact bounded.1
      · exact bounded.2 seen (by rw [before]; exact List.mem_append_right _ old)
  | @write pre post left right mine a any before done after =>
    obtain ⟨own,others⟩ := boundedAt bounded before done
    subst after
    refine ⟨?_,fun seen mem => ?_⟩
    · simp only [counts,List.length_append,List.length_cons]
      omega
    · have other := others seen mem
      simp only [List.length_append,List.length_cons]
      omega

theorem tightMove (counts : ∀ a seen, rank (update a seen) = rank seen + 1) {v v' : View V A} {alone : Prop}
    (bounded : Bounded rank v) (move : Move update v alone v') : Tight rank v' ↔ Tight rank v ∧ alone := by
  cases move with
  | idle any same => simp [same,any]
  | @read pre post only before after =>
    subst after
    rw [only]
    by_cases none : v.reading = []
    · obtain ⟨rfl,rfl⟩ := List.append_eq_nil_iff.mp (before.symm.trans none)
      simp [Tight,none]
    · have more : ∀ seen, pre ++ v.value::post ≠ [seen] := by
        intro seen one
        have sizes := congrArg List.length one
        rw [before] at none
        have some := List.length_pos_iff.mpr none
        simp only [List.length_append,List.length_cons,List.length_nil] at sizes some
        omega
      simp [Tight,none,more]
  | @write pre post left right mine a any before done after =>
    subst after
    obtain ⟨own,late⟩ := boundedAt bounded before done
    simp only [Tight,before,done,any,and_true,counts,List.length_append,List.length_cons]
    cases others : pre ++ post with
    | nil =>
      obtain ⟨rfl,rfl⟩ := List.append_eq_nil_iff.mp others
      simp only [List.nil_append,List.cons.injEq,and_true,exists_eq_left',true_and,reduceCtorEq,false_and,
        exists_false,or_false,false_or]
      omega
    | cons first rest =>
      -- Those that are left have not seen this write.
      have behind := late first (others ▸ List.mem_cons_self)
      have more : ∀ seen, pre ++ mine::post ≠ [seen] := by
        intro seen one
        have sizes := congrArg List.length one
        have rests := congrArg List.length others
        simp only [List.length_append,List.length_cons,List.length_nil] at sizes rests
        omega
      constructor
      · rintro (⟨none,_⟩ | ⟨seen,one,whole⟩)
        · simp at none
        · cases one
          omega
      · rintro (⟨none,_⟩ | ⟨seen,one,_⟩)
        · simp at none
        · exact absurd one (more seen)

end Counted

end Moves

section Runs
variable {V A σ α : Type} {update : A → V → V} {step : σ → α → Option σ} {view : σ → View V A}
  {alone : σ → α → Prop}

theorem exactRun {expect : List A → V}
    (adds : ∀ left a right, update a (expect (left ++ right)) = expect (left ++ a::right))
    (moves : ∀ {s a t}, step s a = some t → Move update (view s) (alone s a) (view t)) {s t}
    {steps : List α} (start : Exact expect (view s)) (meets : Meets step alone s steps)
    (ok : run step s steps = some t) : Exact expect (view t) :=
  Run.invariant alone (fun s => Exact expect (view s))
    (fun exact_ free one => exactMove adds exact_ free (moves one)) start meets ok

theorem tightRun {rank : V → Int} (counts : ∀ a seen, rank (update a seen) = rank seen + 1)
    (moves : ∀ {s a t}, step s a = some t → Move update (view s) (alone s a) (view t)) {s t}
    {steps : List α} (bounded : Bounded rank (view s)) (ok : run step s steps = some t) :
    Tight rank (view t) ↔ Tight rank (view s) ∧ Meets step alone s steps := by
  induction steps generalizing s with
  | nil =>
    cases Option.some.inj ok
    simp [Meets]
  | cons a rest ih =>
    obtain ⟨u,one,tail⟩ := runCons ok
    rw [ih (boundedMove counts bounded (moves one)) tail,tightMove counts bounded (moves one),and_assoc]
    simp only [Meets,one]

end Runs

end F3.Lib.ReadWrite
