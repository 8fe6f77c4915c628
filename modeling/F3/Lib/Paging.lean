import Mathlib.Data.List.Basic
import Mathlib.Data.List.Nodup

/-! A stream that is read in pages. Each item has a key; the reader asks for what follows the
last item it was given, and the cursor is put there unless it is known to be there. Items
that are not shown are passed over, and an item that was read may not fit any more. -/
namespace F3.Lib.Paging

structure Cursor (α : Type) where
  rest : List α
  offset : Nat
  deriving DecidableEq, Repr

section
variable {α : Type} (key : α → Nat) (shown : α → Bool)

def seek (stream : List α) (offset : Nat) : List α :=
  if offset = 0 then stream else (stream.dropWhile fun x => key x ≠ offset).tail

def fill (size : α → Nat) : List α → Nat → Nat → List α × Cursor α
  | [],_,offset => ([],⟨[],offset⟩)
  | x::rest,room,_ =>
      if shown x then
        if size x ≤ room then
          let r := fill size rest (room - size x) (key x)
          (x::r.1,r.2)
        else ([],⟨rest,key x⟩)
      else fill size rest room (key x)

def place (stream : List α) (c : Cursor α) (offset : Nat) : Cursor α :=
  if offset = c.offset then c else ⟨seek key stream offset,offset⟩

def page (stream : List α) (size : α → Nat) (c : Cursor α) (offset room : Nat) : List α × Cursor α :=
  fill key shown size (place key stream c offset).rest room (place key stream c offset).offset

def next (offset : Nat) (items : List α) : Nat := match items.getLast? with
  | some x => key x
  | none => offset

def pages (stream : List α) : Cursor α → Nat → List ((α → Nat) × Nat) → List (List α)
  | _,_,[] => []
  | c,offset,(size,room)::calls =>
      let r := page key shown stream size c offset room
      r.1::pages stream r.2 (next key offset r.1) calls

end

section
variable {α : Type} {key : α → Nat} {shown : α → Bool} {stream : List α}

structure Keyed (key : α → Nat) (stream : List α) : Prop where
  distinct : (stream.map key).Nodup
  nonzero : ∀ x ∈ stream, key x ≠ 0

theorem nextAppend (offset : Nat) (front back : List α) :
    next key offset (front ++ back) = next key (next key offset front) back := by
  unfold next
  rw [List.getLast?_append]
  cases back.getLast? <;> rfl

theorem nextCons (offset : Nat) (x : α) (rest : List α) :
    next key offset (x::rest) = next key (key x) rest := nextAppend offset [x] rest

theorem seekNext (keyed : Keyed key stream) {front left : List α} (split : stream = front ++ left) :
    seek key stream (next key 0 front) = left := by
  rcases List.eq_nil_or_concat front with rfl | ⟨front,x,rfl⟩
  · simp [seek,next,split]
  · rw [List.concat_eq_append] at split ⊢
    have last : next key 0 (front ++ [x]) = key x := by simp [next]
    have apart : ∀ y ∈ front, decide (key y ≠ key x) = true := by
      intro y mem
      have distinct := keyed.distinct
      rw [split,List.map_append,List.map_append,List.append_assoc] at distinct
      have other := (List.nodup_append.mp distinct).2.2 (key y) (List.mem_map_of_mem mem) (key x) (by simp)
      simpa using other
    rw [last,seek,if_neg (keyed.nonzero x (by simp [split])),split,List.append_assoc,
      List.dropWhile_append_of_pos apart]
    simp

theorem fillRead (size : α → Nat) (rest : List α) (room offset : Nat) :
    ∃ read, rest = read ++ (fill key shown size rest room offset).2.rest ∧
      (fill key shown size rest room offset).2.offset = next key offset read := by
  induction rest generalizing room offset with
  | nil => exact ⟨[],rfl,rfl⟩
  | cons x rest ih =>
    unfold fill
    split
    · split
      · obtain ⟨read,split,last⟩ := ih (room - size x) (key x)
        exact ⟨x::read,congrArg (x::·) split,last.trans (nextCons offset x read).symm⟩
      · exact ⟨[x],rfl,rfl⟩
    · obtain ⟨read,split,last⟩ := ih room (key x)
      exact ⟨x::read,congrArg (x::·) split,last.trans (nextCons offset x read).symm⟩

theorem fillShown (size : α → Nat) (rest : List α) (room offset : Nat) :
    ∃ front left, rest = front ++ left ∧ (fill key shown size rest room offset).1 = front.filter shown ∧
      front.getLast? = (fill key shown size rest room offset).1.getLast? := by
  induction rest generalizing room offset with
  | nil => exact ⟨[],[],rfl,rfl,rfl⟩
  | cons x rest ih =>
    unfold fill
    split
    · rename_i isShown
      split
      · obtain ⟨front,left,split,items,last⟩ := ih (room - size x) (key x)
        refine ⟨x::front,left,congrArg (x::·) split,?_,?_⟩
        · simp [isShown,items]
        · simp [List.getLast?_cons,last]
      · exact ⟨[],x::rest,rfl,rfl,rfl⟩
    · rename_i hidden
      obtain ⟨front,left,split,items,last⟩ := ih room (key x)
      cases front with
      | nil => exact ⟨[],x::rest,rfl,items,last⟩
      | cons y front =>
        refine ⟨x::y::front,left,congrArg (x::·) split,?_,?_⟩
        · simpa [hidden] using items
        · rw [← last]
          simp

theorem fillSome {size : α → Nat} {rest : List α} {room offset : Nat}
    (roomy : ∀ x ∈ rest, shown x = true → size x ≤ room)
    (empty : (fill key shown size rest room offset).1 = []) : rest.filter shown = [] := by
  induction rest generalizing offset with
  | nil => rfl
  | cons x rest ih =>
    have others : ∀ y ∈ rest, shown y = true → size y ≤ room :=
      fun y mem => roomy y (List.mem_cons_of_mem x mem)
    unfold fill at empty
    split at empty
    · rename_i isShown
      rw [if_pos (roomy x List.mem_cons_self isShown)] at empty
      cases empty
    · rename_i hidden
      simpa [hidden] using ih others empty

/- The cursor stands behind the item it has the key of, and so does the reader; what was
given out is what is shown up to there. -/
structure Reading (key : α → Nat) (shown : α → Bool) (stream : List α) (c : Cursor α) (offset : Nat)
    (given : List α) : Prop where
  cursor : ∃ read, stream = read ++ c.rest ∧ c.offset = next key 0 read
  reader : ∃ front left, stream = front ++ left ∧ offset = next key 0 front ∧ given = front.filter shown

theorem placeNext (keyed : Keyed key stream) {c : Cursor α} {front left read : List α}
    (split : stream = front ++ left) (at_ : stream = read ++ c.rest) (offset : c.offset = next key 0 read) :
    place key stream c (next key 0 front) = ⟨left,next key 0 front⟩ := by
  unfold place
  split
  · rename_i same
    have rest : c.rest = left := by
      rw [← seekNext keyed at_,← offset,← same]
      exact seekNext keyed split
    rw [← rest,same]
  · rw [seekNext keyed split]

theorem pageReading (keyed : Keyed key stream) {c : Cursor α} {offset : Nat} {given : List α}
    (reading : Reading key shown stream c offset given) (size : α → Nat) (room : Nat) :
    let r := page key shown stream size c offset room
    Reading key shown stream r.2 (next key offset r.1) (given ++ r.1) ∧
      ((∀ x ∈ stream, shown x = true → size x ≤ room) → r.1 = [] → given = stream.filter shown) := by
  obtain ⟨⟨read,at_,isOffset⟩,front,left,split,rfl,rfl⟩ := reading
  have placed := placeNext keyed split at_ isOffset
  simp only [page,placed]
  constructor
  · obtain ⟨more,splitRead,last⟩ := @fillRead α key shown size left room (next key 0 front)
    obtain ⟨part,rest,splitPart,items,sameLast⟩ := @fillShown α key shown size left room (next key 0 front)
    refine ⟨⟨front ++ more,?_,?_⟩,front ++ part,rest,?_,?_,?_⟩
    · rw [List.append_assoc,← splitRead,split]
    · rw [last,nextAppend]
    · rw [List.append_assoc,← splitPart,split]
    · rw [nextAppend]
      simp only [next,sameLast]
    · rw [List.filter_append,items]
  · intro roomy empty
    have none := fillSome (fun x mem => roomy x (by rw [split]; exact List.mem_append_right front mem)) empty
    rw [split,List.filter_append,none,List.append_nil]

theorem pagesFrom (keyed : Keyed key stream) {c : Cursor α} {offset : Nat} {given : List α}
    {calls : List ((α → Nat) × Nat)} (reading : Reading key shown stream c offset given)
    (roomy : ∀ call ∈ calls, ∀ x ∈ stream, shown x = true → call.1 x ≤ call.2) :
    ([] ∈ pages key shown stream c offset calls → given ++
      ((pages key shown stream c offset calls).takeWhile fun p => p ≠ []).flatten = stream.filter shown) ∧
    ((stream.filter shown).length < given.length + calls.length →
      [] ∈ pages key shown stream c offset calls) := by
  induction calls generalizing c offset given with
  | nil =>
    obtain ⟨_,front,left,split,_,rfl⟩ := reading
    refine ⟨fun mem => (List.not_mem_nil mem).elim,fun more => ?_⟩
    rw [split,List.filter_append,List.length_append,List.length_nil] at more
    omega
  | cons call calls ih =>
    obtain ⟨size,room⟩ := call
    obtain ⟨later,ends⟩ := pageReading keyed reading size room
    obtain ⟨whole,reaches⟩ := ih later fun call mem => roomy call (List.mem_cons_of_mem _ mem)
    simp only [pages]
    by_cases empty : (page key shown stream size c offset room).1 = []
    · have all := ends (roomy (size,room) List.mem_cons_self) empty
      simp [empty,all]
    · constructor
      · intro mem
        have mem := (List.mem_cons.mp mem).resolve_left (Ne.symm empty)
        simpa [empty] using whole mem
      · intro more
        refine List.mem_cons_of_mem _ (reaches ?_)
        have some : 0 < (page key shown stream size c offset room).1.length := List.length_pos_iff.mpr empty
        simp only [List.length_append,List.length_cons] at more ⊢
        omega

theorem pagesWhole (keyed : Keyed key stream) {calls : List ((α → Nat) × Nat)}
    (roomy : ∀ call ∈ calls, ∀ x ∈ stream, shown x = true → call.1 x ≤ call.2) :
    ([] ∈ pages key shown stream ⟨stream,0⟩ 0 calls →
      ((pages key shown stream ⟨stream,0⟩ 0 calls).takeWhile fun p => p ≠ []).flatten = stream.filter shown) ∧
    ((stream.filter shown).length < calls.length → [] ∈ pages key shown stream ⟨stream,0⟩ 0 calls) := by
  have start : Reading key shown stream ⟨stream,0⟩ 0 [] := ⟨⟨[],rfl,rfl⟩,[],stream,rfl,rfl,rfl⟩
  obtain ⟨whole,reaches⟩ := pagesFrom keyed start roomy
  exact ⟨whole,fun more => reaches (by simpa using more)⟩

end
end F3.Lib.Paging
