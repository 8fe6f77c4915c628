import Mathlib.Order.Basic

/-! Programs over an explicit state. They read an environment, which decides what the
outside does. An action always returns; a program may abort. A relation that every step
keeps is kept by the whole. -/
namespace F3.Lib
variable {ε σ τ α β : Type}

def Act (ε σ α : Type) := ε → σ → α × σ

namespace Act

instance : Monad (Act ε σ) where
  pure a := fun _ s => (a,s)
  bind p f := fun e s => f (p e s).1 e (p e s).2

def Keeps (rel : σ → σ → Prop) (p : Act ε σ α) : Prop := ∀ e s, rel s (p e s).2

variable {rel : σ → σ → Prop} [IsPreorder σ rel]

theorem keepsPure (a : α) : Keeps rel (pure a : Act ε σ α) := fun _ s => refl_of rel s

theorem keepsBind {p : Act ε σ α} {f : α → Act ε σ β} (first : Keeps rel p)
    (rest : ∀ a, Keeps rel (f a)) : Keeps rel (p >>= f) :=
  fun e s => trans_of rel (first e s) (rest _ e _)

end Act

def Prog (ε σ α : Type) := ε → σ → Option (α × σ)

namespace Prog

instance : Monad (Prog ε σ) where
  pure a := fun _ s => some (a,s)
  bind p f := fun e s => match p e s with
    | some (a,t) => f a e t
    | none => none

def get : Prog ε σ σ := fun _ s => some (s,s)
def modify (f : σ → σ) : Prog ε σ Unit := fun _ s => some ((),f s)
def abort : Prog ε σ α := fun _ _ => none
def within (e : ε) (p : Prog ε σ α) : Prog ε σ α := fun _ s => p e s
def onlyIf (c : Prop) [Decidable c] (p : Prog ε σ Unit) : Prog ε σ Unit := if c then p else pure ()

def zoom (view : τ → σ) (set : τ → σ → τ) (p : Act ε σ α) : Prog ε τ α :=
  fun e t => some ((p e (view t)).1,set t (p e (view t)).2)

theorem bindSome {p : Prog ε σ α} {f : α → Prog ε σ β} {e s b t}
    (ok : (p >>= f) e s = some (b,t)) : ∃ a u, p e s = some (a,u) ∧ f a e u = some (b,t) := by
  simp only [bind] at ok
  split at ok <;> try contradiction
  rename_i a u first
  exact ⟨a,u,first,ok⟩

theorem bindEq {p : Prog ε σ α} {f : α → Prog ε σ β} {e s a u} (first : p e s = some (a,u)) :
    (p >>= f) e s = f a e u := by
  simp only [bind,first]

theorem bindCongr {p : Prog ε σ α} {f g : α → Prog ε σ β} {e s} (each : ∀ a t, f a e t = g a e t) :
    (p >>= f) e s = (p >>= g) e s := by
  simp only [bind]
  cases p e s with
  | none => rfl
  | some r => exact each r.1 r.2

theorem pureSome {a b : α} {e : ε} {s t : σ} (ok : (pure a : Prog ε σ α) e s = some (b,t)) :
    b = a ∧ t = s := by
  cases Option.some.inj ok
  exact ⟨rfl,rfl⟩

def Keeps (rel : σ → σ → Prop) (p : Prog ε σ α) : Prop :=
  ∀ e s a t, p e s = some (a,t) → rel s t

section Rules
variable {rel : σ → σ → Prop} [IsPreorder σ rel]

theorem keepsPure (a : α) : Keeps rel (pure a : Prog ε σ α) := by
  intro e s b t ok
  rw [(pureSome ok).2]
  exact refl_of rel s

theorem keepsBind {p : Prog ε σ α} {f : α → Prog ε σ β} (first : Keeps rel p)
    (rest : ∀ a, Keeps rel (f a)) : Keeps rel (p >>= f) := by
  intro e s b t ok
  obtain ⟨a,u,one,two⟩ := bindSome ok
  exact trans_of rel (first e s a u one) (rest a e u b t two)

theorem keepsGet : Keeps rel (get : Prog ε σ σ) := by
  intro e s b t ok
  cases Option.some.inj ok
  exact refl_of rel s

theorem keepsOnlyIf {c : Prop} [Decidable c] {p : Prog ε σ Unit} (body : Keeps rel p) :
    Keeps rel (onlyIf c p) := by
  unfold onlyIf
  split
  · exact body
  · exact keepsPure ()

end Rules

theorem keepsAbort {rel : σ → σ → Prop} : Keeps rel (abort : Prog ε σ α) := by
  intro e s a t ok
  simp [abort] at ok

theorem keepsIte {rel : σ → σ → Prop} {c : Prop} [Decidable c] {p q : Prog ε σ α}
    (yes : Keeps rel p) (no : Keeps rel q) : Keeps rel (if c then p else q) := by
  split <;> assumption

theorem keepsModify {rel : σ → σ → Prop} {f : σ → σ} (each : ∀ s, rel s (f s)) :
    Keeps rel (modify f : Prog ε σ Unit) := by
  intro e s a t ok
  cases Option.some.inj ok
  exact each s

theorem keepsWithin {rel : σ → σ → Prop} {e : ε} {p : Prog ε σ α} (body : Keeps rel p) :
    Keeps rel (within e p) := fun _ => body e

-- The program returns, with a result and a state that meet the postcondition.
def Ends (p : Prog ε σ α) (post : α → σ → Prop) (e : ε) (s : σ) : Prop :=
  ∃ a t, p e s = some (a,t) ∧ post a t

theorem endsStep {p : Prog ε σ α} {f : α → Prog ε σ β} {post : β → σ → Prop} {e s a t}
    (first : p e s = some (a,t)) (rest : Ends (f a) post e t) : Ends (p >>= f) post e s := by
  obtain ⟨b,u,two,met⟩ := rest
  exact ⟨b,u,(bindEq first).trans two,met⟩

theorem endsWeaken {p : Prog ε σ α} {post weaker : α → σ → Prop} {e s} (ends : Ends p post e s)
    (each : ∀ a t, post a t → weaker a t) : Ends p weaker e s := by
  obtain ⟨a,t,ok,met⟩ := ends
  exact ⟨a,t,ok,each a t met⟩

end Prog

end F3.Lib
