import F3.Lib.Bytes

/-! io.CopyN from a connection to a file that is open for appending: reads of any length, each
written before the next, until the limit is reached or a read reports an end or an error.
Writes succeed. -/
namespace F3.Lib.GoCopy
open Lib (Bytes)

inductive Read where
  | bytes (n : Nat)
  | eof
  | failed
  deriving DecidableEq, Repr

inductive CopyError where
  | eof | failed
  deriving DecidableEq, Repr

structure Pipe where
  content : Bytes
  taken : Nat
  ended : Bool
  deriving DecidableEq, Repr

def Pipe.read (stream : Bytes) (p : Pipe) (n : Nat) : Pipe :=
  {p with content := p.content ++ (stream.drop p.taken).take n, taken := p.taken + n}

/- io.Copy behind a limit. The limited reader reports the end by itself when nothing is left
of `limit`; none says that the next read has not returned. -/
def copyLoop (stream : Bytes) : List Read → Int → Nat → Pipe → Option (Nat × Option CopyError × Pipe)
  | [],limit,written,p => if limit ≤ 0 then some (written,none,p) else none
  | r::reads,limit,written,p =>
      if limit ≤ 0 then some (written,none,p)
      else match r with
        | .bytes n =>
            if n ≤ limit ∧ p.taken + n ≤ stream.length then
              copyLoop stream reads (limit - n) (written + n) (p.read stream n)
            else none
        | .eof => some (written,none,{p with ended := true})
        | .failed => some (written,some .failed,p)

def copyN (stream : Bytes) (reads : List Read) (n : Int) (p : Pipe) :
    Option (Nat × Option CopyError × Pipe) := do
  let (written,err,p') ← copyLoop stream reads n 0 p
  if written = n then some (written,none,p')
  else if written < n ∧ err = none then some (written,some .eof,p')
  else some (written,err,p')

structure Grown (stream : Bytes) (p p' : Pipe) (k : Nat) : Prop where
  content : p'.content = p.content ++ (stream.drop p.taken).take k
  taken : p'.taken = p.taken + k
  inside : p.taken ≤ stream.length → p'.taken ≤ stream.length
  ended : p.ended = true → p'.ended = true

theorem readGrown {stream : Bytes} {p p' : Pipe} {n k : Nat} (inside : p.taken + n ≤ stream.length)
    (rest : Grown stream (p.read stream n) p' k) : Grown stream p p' (n + k) := by
  refine ⟨?_,?_,fun _ => rest.inside inside,rest.ended⟩
  · rw [rest.content,Pipe.read,List.append_assoc,← List.drop_drop]
    congr 1
    exact Bytes.takeNext _ _ _
  · rw [rest.taken,Pipe.read,Nat.add_assoc]

theorem copyLoopSpec {stream : Bytes} {reads : List Read} {limit : Int} {written w : Nat} {p p' : Pipe} {err}
    (within : 0 ≤ limit) (ok : copyLoop stream reads limit written p = some (w,err,p')) :
    ∃ k : Nat, w = written + k ∧ k ≤ limit ∧ Grown stream p p' k ∧
      (k < limit → err = none → p'.ended = true) ∧ err ≠ some .eof := by
  have none_ : Grown stream p p 0 := ⟨by simp,rfl,id,id⟩
  induction reads generalizing limit written p with
  | nil =>
    unfold copyLoop at ok
    split at ok <;> try contradiction
    cases Option.some.inj ok
    exact ⟨0,rfl,within,none_,by omega,by simp⟩
  | cons r reads ih =>
    unfold copyLoop at ok
    split at ok
    · cases Option.some.inj ok
      exact ⟨0,rfl,within,none_,by omega,by simp⟩
    · split at ok
      · split at ok <;> try contradiction
        rename_i n fits
        obtain ⟨k,size,bound,grown,short,other⟩ := ih (by omega) ok ⟨by simp,rfl,id,id⟩
        exact ⟨n + k,by omega,by omega,readGrown fits.2 grown,fun less => short (by omega),other⟩
      · cases Option.some.inj ok
        exact ⟨0,rfl,within,⟨by simp,rfl,id,fun _ => rfl⟩,fun _ _ => rfl,by simp⟩
      · cases Option.some.inj ok
        exact ⟨0,rfl,within,none_,by simp,by simp⟩

theorem copyNSpec {stream : Bytes} {reads : List Read} {n : Int} {w : Nat} {p p' : Pipe} {err}
    (within : 0 ≤ n) (ok : copyN stream reads n p = some (w,err,p')) :
    w ≤ n ∧ Grown stream p p' w ∧ (err = none → w = n) ∧ (err = some .eof → p'.ended = true) := by
  obtain ⟨⟨written,e,q⟩,loop,ok⟩ := Option.bind_eq_some_iff.mp ok
  obtain ⟨k,size,bound,grown,short,other⟩ := copyLoopSpec within loop
  rw [Nat.zero_add] at size
  subst size
  simp only at ok
  split at ok
  · rename_i whole
    cases Option.some.inj ok
    exact ⟨bound,grown,fun _ => whole,by simp⟩
  · rename_i less
    split at ok
    · rename_i early
      cases Option.some.inj ok
      exact ⟨bound,grown,by simp,fun _ => short early.1 early.2⟩
    · rename_i fault
      cases Option.some.inj ok
      exact ⟨bound,grown,fun quiet => absurd ⟨by omega,quiet⟩ fault,fun eof => absurd eof other⟩

end F3.Lib.GoCopy
