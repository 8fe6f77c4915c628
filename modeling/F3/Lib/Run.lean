import Mathlib.Data.List.Basic

/-! Runs of a partial step function. A guard is a condition on the state before
a step and on the step itself; a run meets it when each of its steps does. No
fairness and no termination is assumed: every result is about finite runs. -/
namespace F3.Lib.Run

variable {σ α : Type} {step : σ → α → Option σ} {guard : σ → α → Prop}

def run (step : σ → α → Option σ) : σ → List α → Option σ
  | s,[] => some s
  | s,a::rest => do
      let t ← step s a
      run step t rest

def Meets (step : σ → α → Option σ) (guard : σ → α → Prop) : σ → List α → Prop
  | _,[] => True
  | s,a::rest => guard s a ∧ match step s a with
      | some t => Meets step guard t rest
      | none => True

instance decidableMeets [∀ s a, Decidable (guard s a)] :
    ∀ (s : σ) (steps : List α), Decidable (Meets step guard s steps)
  | _,[] => isTrue trivial
  | s,a::rest =>
      have : Decidable (match step s a with
          | some t => Meets step guard t rest
          | none => True) := match step s a with
        | some t => decidableMeets t rest
        | none => isTrue trivial
      inferInstanceAs (Decidable (guard s a ∧ _))

theorem runCons {s a rest t} (ok : run step s (a::rest) = some t) :
    ∃ u, step s a = some u ∧ run step u rest = some t := by
  simpa only [run,bind,Option.bind_eq_some_iff] using ok

theorem meetsAnd {other : σ → α → Prop} {s} {steps : List α} (left : Meets step guard s steps)
    (right : Meets step other s steps) :
    Meets step (fun s a => guard s a ∧ other s a) s steps := by
  induction steps generalizing s with
  | nil => trivial
  | cons a rest ih =>
    refine ⟨⟨left.1,right.1⟩,?_⟩
    cases h : step s a with
    | none => trivial
    | some t =>
      simp only [Meets,h] at left right
      exact ih left.2 right.2

/- The invariant rule: what every guarded step keeps, every guarded run keeps. -/
theorem invariant (guard : σ → α → Prop) (inv : σ → Prop)
    (keep : ∀ {s a t}, inv s → guard s a → step s a = some t → inv t) {s t}
    {steps : List α} (start : inv s) (meets : Meets step guard s steps)
    (ok : run step s steps = some t) : inv t := by
  induction steps generalizing s with
  | nil =>
    cases Option.some.inj ok
    exact start
  | cons a rest ih =>
    obtain ⟨u,hu,tail⟩ := runCons ok
    simp only [Meets,hu] at meets
    exact ih (keep start meets.1 hu) meets.2 tail

theorem completes (guard : σ → α → Prop) (inv : σ → Prop)
    (keep : ∀ {s a}, inv s → guard s a → ∃ t, step s a = some t ∧ inv t) {s}
    {steps : List α} (start : inv s) (meets : Meets step guard s steps) :
    ∃ t, run step s steps = some t ∧ inv t := by
  induction steps generalizing s with
  | nil => exact ⟨s,rfl,start⟩
  | cons a rest ih =>
    obtain ⟨u,hu,after⟩ := keep start meets.1
    simp only [Meets,hu] at meets
    obtain ⟨t,tail,ends⟩ := ih after meets.2
    exact ⟨t,by simp [run,hu,tail],ends⟩

theorem reaches (guard : σ → α → Prop) (inv goal : σ → Prop) (rank : σ → Nat)
    (next : ∀ {s}, inv s → ¬ goal s → ∃ a t, guard s a ∧ step s a = some t ∧ inv t ∧ rank t < rank s)
    {s} (start : inv s) :
    ∃ steps t, Meets step guard s steps ∧ run step s steps = some t ∧ inv t ∧ goal t := by
  induction below : rank s using Nat.strongRecOn generalizing s with
  | _ bound ih =>
    by_cases done : goal s
    · exact ⟨[],s,trivial,rfl,start,done⟩
    · obtain ⟨a,u,allowed,one,after,lower⟩ := next start done
      obtain ⟨rest,t,meets,ok,ends,met⟩ := ih (rank u) (below ▸ lower) after rfl
      exact ⟨a::rest,t,by simpa only [Meets,one] using ⟨allowed,meets⟩,by simp [run,one,ok],ends,met⟩

theorem lowers (guard : σ → α → Prop) (inv : σ → Prop) (rank : σ → Nat)
    (keep : ∀ {s a t}, inv s → guard s a → step s a = some t → inv t ∧ rank t < rank s) {s t}
    {steps : List α} (start : inv s) (meets : Meets step guard s steps)
    (ok : run step s steps = some t) : inv t ∧ steps.length + rank t ≤ rank s := by
  induction steps generalizing s with
  | nil =>
    cases Option.some.inj ok
    exact ⟨start,by simp⟩
  | cons a rest ih =>
    obtain ⟨u,hu,tail⟩ := runCons ok
    simp only [Meets,hu] at meets
    obtain ⟨after,lower⟩ := keep start meets.1 hu
    obtain ⟨ends,short⟩ := ih after meets.2 tail
    refine ⟨ends,?_⟩
    rw [List.length_cons]
    omega

theorem meetsOfMem {s} {steps : List α} (each : ∀ a ∈ steps, ∀ u, guard u a) :
    Meets step guard s steps := by
  induction steps generalizing s with
  | nil => trivial
  | cons a rest ih =>
    refine ⟨each a List.mem_cons_self s,?_⟩
    cases step s a with
    | none => trivial
    | some t => exact ih (fun b mem => each b (List.mem_cons_of_mem a mem))

theorem meetsSplit {s u} {pre post : List α} (meets : Meets step guard s (pre ++ post))
    (ok : run step s pre = some u) : Meets step guard s pre ∧ Meets step guard u post := by
  induction pre generalizing s with
  | nil =>
    cases Option.some.inj ok
    exact ⟨trivial,meets⟩
  | cons a rest ih =>
    obtain ⟨t,one,ok⟩ := runCons ok
    simp only [List.cons_append,Meets,one] at meets ⊢
    obtain ⟨front,back⟩ := ih meets.2 ok
    exact ⟨⟨meets.1,front⟩,back⟩

theorem firstChange (prop : σ → Prop) {s t} {steps : List α} (before : ¬ prop s)
    (ok : run step s steps = some t) (after : prop t) :
    ∃ pre a post u v, steps = pre ++ a :: post ∧ run step s pre = some u ∧
      step u a = some v ∧ run step v post = some t ∧ ¬ prop u ∧ prop v := by
  induction steps generalizing s with
  | nil =>
    cases Option.some.inj ok
    exact absurd after before
  | cons a rest ih =>
    obtain ⟨u,hu,tail⟩ := runCons ok
    by_cases now : prop u
    · exact ⟨[],a,rest,s,u,rfl,rfl,hu,tail,before,now⟩
    · obtain ⟨pre,b,post,v,w,split,front,middle,back,no,yes⟩ := ih now tail
      refine ⟨a::pre,b,post,v,w,by simp [split],?_,middle,back,no,yes⟩
      simp [run,hu,front]

end F3.Lib.Run
