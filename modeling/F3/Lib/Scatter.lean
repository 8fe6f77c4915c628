import F3.Lib.Bytes
import Mathlib.Logic.Function.Basic

/-! Pieces of byte strings that are read one after the other, or written one after the other, as
one stream. -/
namespace F3.Lib.Scatter

structure Piece (π : Type) where
  place : π
  pos : Nat
  size : Nat
  deriving DecidableEq, Repr

section Read
variable {π : Type}

def slice (store : π → Bytes) (p : Piece π) : Bytes := ((store p.place).drop p.pos).take p.size

def gather (store : π → Bytes) (ps : List (Piece π)) : Bytes := ps.flatMap (slice store)

def room (ps : List (Piece π)) : Nat := (ps.map Piece.size).sum

-- How much can be read without a break: up to the first piece that lies beyond the end.
def available (store : π → Bytes) : List (Piece π) → Nat
  | [] => 0
  | p :: ps => if (slice store p).length = p.size then p.size + available store ps else (slice store p).length

def Piece.shift (p : Piece π) (n : Nat) : Piece π := ⟨p.place,p.pos + n,p.size - n⟩

def after (n : Nat) (p : Piece π) (ps : List (Piece π)) : List (Piece π) :=
  if n < p.size then p.shift n :: ps else ps

variable (store : π → Bytes) (p : Piece π) (ps : List (Piece π))

theorem sliceSize : (slice store p).length ≤ p.size := List.length_take_le _ _

theorem sliceShift (n : Nat) : slice store (p.shift n) = (slice store p).drop n := by
  simp [slice,Piece.shift,List.drop_take,List.drop_drop]

theorem gatherAfter (n : Nat) :
    gather store (p :: ps) = (slice store p).take n ++ gather store (after n p ps) := by
  have bound := sliceSize store p
  unfold after
  split
  · simp only [gather,List.flatMap_cons,sliceShift,← List.append_assoc,List.take_append_drop]
  · have whole : (slice store p).length ≤ n := by omega
    rw [List.take_of_length_le whole]
    rfl

theorem availableAfter {n : Nat} (enough : n ≤ (slice store p).length) :
    n + available store (after n p ps) = available store (p :: ps) := by
  have bound := sliceSize store p
  unfold after
  split
  · have size : (p.shift n).size = p.size - n := rfl
    rw [available,available,sliceShift,List.length_drop,size]
    by_cases whole : (slice store p).length = p.size
    · rw [if_pos whole,if_pos (by omega)]
      omega
    · rw [if_neg whole,if_neg (by omega)]
      omega
  · rw [available,if_pos (by omega)]
    omega

theorem oneAvailable : available store [p] = (slice store p).length := by
  simp only [available]
  split <;> omega

theorem allAvailable (full : ∀ p ∈ ps, (slice store p).length = p.size) :
    (gather store ps).length = room ps ∧ available store ps = room ps := by
  induction ps with
  | nil => exact ⟨rfl,rfl⟩
  | cons p ps ih =>
    have first := full p List.mem_cons_self
    obtain ⟨bytes,rest⟩ := ih fun q mem => full q (List.mem_cons_of_mem _ mem)
    simp only [gather,room,List.flatMap_cons,List.length_append,List.map_cons,List.sum_cons,available,
      if_pos first] at bytes rest ⊢
    exact ⟨by omega,by omega⟩

theorem roomAfter {n : Nat} (fits : n ≤ p.size) : n + room (after n p ps) = room (p :: ps) := by
  simp only [room,after,List.map_cons,List.sum_cons]
  split
  · simp only [List.map_cons,List.sum_cons,Piece.shift]
    omega
  · omega

theorem afterPlaces {n : Nat} {r : Piece π} (mem : r ∈ after n p ps) : ∃ s ∈ p :: ps, s.place = r.place := by
  unfold after at mem
  split at mem
  · rcases List.mem_cons.mp mem with rfl | inside
    · exact ⟨p,List.mem_cons_self,rfl⟩
    · exact ⟨r,List.mem_cons_of_mem _ inside,rfl⟩
  · exact ⟨r,List.mem_cons_of_mem _ mem,rfl⟩

end Read

section Write
variable {π : Type} [DecidableEq π]

def put (store : π → Bytes) (p : Piece π) (data : Bytes) : π → Bytes :=
  Function.update store p.place ((store p.place).pwrite p.pos data)

def scatter : List (Piece π) → Bytes → (π → Bytes) → π → Bytes
  | [],_,store => store
  | p :: ps,data,store => scatter ps (data.drop p.size) (put store p (data.take p.size))

variable (store : π → Bytes) (p q : Piece π) (ps : List (Piece π))

theorem putNil : put store p [] = store := by simp [put,Bytes.pwrite]

theorem putAppend (a b : Bytes) : put (put store p a) (p.shift a.length) b = put store p (a ++ b) := by
  by_cases none : a = []
  · subst none
    rw [putNil]
    rfl
  · have joined := Bytes.pwriteAppend (store p.place) p.pos b none
    simp only [put,Piece.shift,Function.update_self,Function.update_idem,joined]

theorem putElsewhere {place : π} (data : Bytes) (other : place ≠ p.place) :
    put store p data place = store place := by
  rw [put,Function.update_of_ne other]

theorem slicePut (data : Bytes) (apart : q.place ≠ p.place) : slice (put store p data) q = slice store q := by
  rw [slice,putElsewhere store p data apart,slice]

theorem sliceOwn (data : Bytes) : slice (put store p data) ⟨p.place,p.pos,data.length⟩ = data := by
  by_cases none : data = []
  · simp [slice,none]
  · have front : ((store p.place).take p.pos ++
        List.replicate (p.pos - (store p.place).length) 0).length = p.pos := by
      simp only [List.length_append,List.length_take,List.length_replicate]
      omega
    rw [slice,put,Function.update_self,Bytes.pwrite,if_neg none,List.append_assoc,List.drop_left' front,
      List.take_left]

theorem gatherPut (data : Bytes) {qs : List (Piece π)} (apart : ∀ q ∈ qs, q.place ≠ p.place) :
    gather (put store p data) qs = gather store qs := by
  induction qs with
  | nil => rfl
  | cons q qs ih =>
    have first := slicePut store p q data (apart q List.mem_cons_self)
    have rest := ih fun q mem => apart q (List.mem_cons_of_mem _ mem)
    simp only [gather,List.flatMap_cons,first] at rest ⊢
    rw [rest]

theorem availablePut (data : Bytes) {qs : List (Piece π)} (apart : ∀ q ∈ qs, q.place ≠ p.place) :
    available (put store p data) qs = available store qs := by
  induction qs with
  | nil => rfl
  | cons q qs ih =>
    have first := slicePut store p q data (apart q List.mem_cons_self)
    rw [available,available,first,ih fun q mem => apart q (List.mem_cons_of_mem _ mem)]

theorem scatterNil : scatter ps [] store = store := by
  induction ps generalizing store with
  | nil => rfl
  | cons p ps ih => rw [scatter,List.take_nil,List.drop_nil,putNil,ih]

theorem scatterAfter {data : Bytes} (fits : data.length ≤ p.size) (more : Bytes) :
    scatter (p :: ps) (data ++ more) store = scatter (after data.length p ps) more (put store p data) := by
  unfold after
  split
  · rw [scatter,scatter,putAppend,List.take_append,List.take_of_length_le fits,List.drop_append,
      List.drop_of_length_le fits]
    rfl
  · have full : data.length = p.size := by omega
    rw [scatter,← full,List.take_left,List.drop_left]

end Write

end F3.Lib.Scatter
