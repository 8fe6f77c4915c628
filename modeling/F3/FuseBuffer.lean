import F3.Lib.Scatter
import F3.Lib.Posix

/-! The copy loop of libfuse between two vectors of buffers, with the larger buffer it has here for
two files. A buffer is memory or a regular file at a position; the pipes of the splice path are left
out. Each system call may be cut short or fail as `outcomes` says, and is complete when that
has run out. -/
namespace F3.Fuse
open Lib (Bytes)
open Lib.Posix (Errno)
open Lib.Scatter

-- `scratch` is the memory that fuse_buf_fd_to_fd allocates and frees.
inductive Place where
  | memory (region : Nat)
  | scratch
  | file (fd : Nat)
  deriving DecidableEq, Repr

structure Buf where
  place : Place
  pos : Nat
  size : Nat
  retry : Bool
  deriving DecidableEq, Repr

def Buf.isFd (b : Buf) : Bool := match b.place with
  | .file _ => true
  | _ => false

def Buf.piece (b : Buf) (off : Nat) : Piece Place := ⟨b.place,b.pos + off,b.size - off⟩

structure Bufvec where
  bufs : List Buf
  idx : Nat
  off : Nat
  deriving DecidableEq, Repr

structure Flags where
  noSplice : Bool
  forceSplice : Bool
  deriving DecidableEq, Repr

structure World where
  store : Place → Bytes
  outcomes : List (Except Errno Nat)

def sizeMax : Nat := 2 ^ 64 - 1

def fuseBufSize (v : Bufvec) : Nat :=
  v.bufs.foldl (fun size b => if b.size = sizeMax then sizeMax else (size + b.size) % 2 ^ 64) 0

def callOnce (dst : Buf) (dstOff : Nat) (src : Buf) (srcOff len : Nat) (w : World) :
    Except Errno Nat × World :=
  match w.outcomes.headD (.ok len) with
  | .error e => (.error e,{w with outcomes := w.outcomes.tail})
  | .ok count =>
      let data := (slice w.store ⟨src.place,src.pos + srcOff,len⟩).take count
      (.ok data.length,⟨put w.store (dst.piece dstOff) data,w.outcomes.tail⟩)

-- What a loop returns when a call fails: the error is lost when something has been copied.
def failed (copied : Nat) (e : Errno) : Except Errno Nat := if copied = 0 then .error e else .ok copied

/- The loops of fuse_buf_write and fuse_buf_read. They end within `len` rounds; none is the end of
the rounds. -/
def callLoop (retry : Bool) (dst src : Buf) :
    Nat → Nat → Nat → Nat → Nat → World → Option (Except Errno Nat × World)
  | _,_,_,0,copied,w => some (.ok copied,w)
  | 0,_,_,_ + 1,_,_ => none
  | rounds + 1,dstOff,srcOff,len + 1,copied,w =>
      match callOnce dst dstOff src srcOff (len + 1) w with
      | (.error e,w) => some (failed copied e,w)
      | (.ok res,w) =>
          if res = 0 then some (.ok copied,w)
          else if !retry then some (.ok (copied + res),w)
          else callLoop retry dst src rounds (dstOff + res) (srcOff + res) (len + 1 - res) (copied + res) w

def fuseBufWrite (dst : Buf) (dstOff : Nat) (src : Buf) (srcOff len : Nat) (w : World) :
    Option (Except Errno Nat × World) := callLoop dst.retry dst src len dstOff srcOff len 0 w

def fuseBufRead (dst : Buf) (dstOff : Nat) (src : Buf) (srcOff len : Nat) (w : World) :
    Option (Except Errno Nat × World) := callLoop src.retry dst src len dstOff srcOff len 0 w

def tmp : Buf := ⟨.scratch,0,131072,false⟩

def fdToFdLoop (dst src : Buf) :
    Nat → Nat → Nat → Nat → Nat → World → Option (Except Errno Nat × World)
  | _,_,_,0,copied,w => some (.ok copied,w)
  | 0,_,_,_ + 1,_,_ => none
  | rounds + 1,dstOff,srcOff,len + 1,copied,w =>
      let thisLen := min tmp.size (len + 1)
      match fuseBufRead tmp 0 src srcOff thisLen w with
      | none => none
      | some (.error e,w) => some (failed copied e,w)
      | some (.ok readLen,w) =>
          if readLen = 0 then some (.ok copied,w)
          else match fuseBufWrite dst dstOff tmp 0 readLen w with
            | none => none
            | some (.error e,w) => some (failed copied e,w)
            | some (.ok res,w) =>
                if res = 0 then some (.ok copied,w)
                else if res < thisLen then some (.ok (copied + res),w)
                else fdToFdLoop dst src rounds (dstOff + res) (srcOff + res) (len + 1 - res) (copied + res) w

def World.free (w : World) : World := {w with store := Function.update w.store .scratch []}

def fuseBufFdToFd (dst : Buf) (dstOff : Nat) (src : Buf) (srcOff len : Nat) (w : World) :
    Option (Except Errno Nat × World) :=
  (fdToFdLoop dst src len dstOff srcOff len 0 w).map fun done => (done.1,done.2.free)

-- splice answers EINVAL where neither side is a pipe.
def fuseBufSplice (dst : Buf) (dstOff : Nat) (src : Buf) (srcOff len : Nat) (flags : Flags) (w : World) :
    Option (Except Errno Nat × World) :=
  if len = 0 then some (.ok 0,w)
  else if flags.forceSplice then some (.error .einval,w)
  else fuseBufFdToFd dst dstOff src srcOff len w

def moveMemory (dst : Buf) (dstOff : Nat) (src : Buf) (srcOff len : Nat) (w : World) : World :=
  if dst.place = src.place ∧ dst.pos + dstOff = src.pos + srcOff then w
  else {w with store := put w.store (dst.piece dstOff) (slice w.store ⟨src.place,src.pos + srcOff,len⟩)}

def fuseBufCopyOne (dst : Buf) (dstOff : Nat) (src : Buf) (srcOff len : Nat) (flags : Flags) (w : World) :
    Option (Except Errno Nat × World) :=
  match src.isFd,dst.isFd with
  | false,false => some (.ok len,moveMemory dst dstOff src srcOff len w)
  | false,true => fuseBufWrite dst dstOff src srcOff len w
  | true,false => fuseBufRead dst dstOff src srcOff len w
  | true,true =>
      if flags.noSplice then fuseBufFdToFd dst dstOff src srcOff len w
      else fuseBufSplice dst dstOff src srcOff len flags w

def fuseBufvecCurrent (v : Bufvec) : Option Buf := v.bufs[v.idx]?

-- The result is none where an assertion fails.
def fuseBufvecAdvance (v : Bufvec) (len : Nat) : Option (Bool × Bufvec) :=
  match fuseBufvecCurrent v with
  | none => some (false,v)
  | some buf =>
      if buf.size < v.off + len then none
      else if v.off + len = buf.size then
        if v.idx + 1 = v.bufs.length then some (false,⟨v.bufs,v.idx + 1,v.off + len⟩)
        else some (true,⟨v.bufs,v.idx + 1,0⟩)
      else some (true,{v with off := v.off + len})

def copyLoop (flags : Flags) : Nat → Bufvec → Bufvec → Nat → World → Option (Except Errno Nat × World)
  | 0,_,_,_,_ => none
  | rounds + 1,dstv,srcv,copied,w =>
      match fuseBufvecCurrent srcv,fuseBufvecCurrent dstv with
      | some src,some dst =>
          let len := min (src.size - srcv.off) (dst.size - dstv.off)
          match fuseBufCopyOne dst dstv.off src srcv.off len flags w with
          | none => none
          | some (.error e,w) => some (failed copied e,w)
          | some (.ok res,w) => do
              let (more,srcv) ← fuseBufvecAdvance srcv res
              if !more then some (.ok (copied + res),w)
              else
                let (more,dstv) ← fuseBufvecAdvance dstv res
                if !more then some (.ok (copied + res),w)
                else if res < len then some (.ok (copied + res),w)
                else copyLoop flags rounds dstv srcv (copied + res) w
      | _,_ => some (.ok copied,w)

def fuseBufCopy (dstv srcv : Bufvec) (flags : Flags) (w : World) : Option (Except Errno Nat × World) :=
  copyLoop flags (dstv.bufs.length + srcv.bufs.length + 1) dstv srcv 0 w

section Calls

def upTo (src : Piece Place) (len : Nat) : Piece Place := ⟨src.place,src.pos,len⟩

/- `n` bytes have gone from `src` to `dst`, where `copied` bytes had gone before: all there are
when no call is cut short. -/
structure Moved (copied : Nat) (w w' : World) (src dst : Piece Place) (n : Nat) (r : Except Errno Nat) :
    Prop where
  bytes : n ≤ (slice w.store src).length
  store : w'.store = put w.store dst ((slice w.store src).take n)
  result : r = .ok (copied + n) ∨ copied = 0 ∧ n = 0 ∧ ∃ e, r = .error e
  whole : w.outcomes = [] → w'.outcomes = [] ∧ n = (slice w.store src).length ∧ r = .ok (copied + n)

variable {copied m n len : Nat} {w w' w'' : World} {src dst : Piece Place} {r : Except Errno Nat}

theorem Moved.ok (moved : Moved 0 w w' src dst n (.ok m)) : m = n := by
  rcases moved.result with same | ⟨-,-,e,wrong⟩
  · simpa using same
  · cases wrong

theorem Moved.stop (moved : Moved 0 w w' src dst n (.ok m)) (copied : Nat) :
    Moved copied w w' src dst n (.ok (copied + m)) := by
  obtain rfl := moved.ok
  exact ⟨moved.bytes,moved.store,.inl rfl,fun quiet => ⟨(moved.whole quiet).1,(moved.whole quiet).2.1,rfl⟩⟩

theorem Moved.fail {e : Errno} (moved : Moved 0 w w' src dst n (.error e)) (copied : Nat) :
    Moved copied w w' src dst 0 (failed copied e) := by
  obtain rfl : n = 0 := by
    rcases moved.result with wrong | ⟨-,none,-⟩
    · cases wrong
    · exact none
  refine ⟨moved.bytes,moved.store,?_,fun quiet => ?_⟩
  · unfold failed
    split
    · rename_i nothing
      exact .inr ⟨nothing,rfl,e,rfl⟩
    · exact .inl rfl
  · cases (moved.whole quiet).2.2

theorem sliceUpTo (store : Place → Bytes) (src : Piece Place) (short : len ≤ src.size) :
    slice store (upTo src len) = (slice store src).take len := by
  simp [slice,upTo,List.take_take,Nat.min_eq_left short]

structure Part (len copied : Nat) (w w' : World) (src dst : Piece Place) (n : Nat) (r : Except Errno Nat) :
    Prop where
  bytes : n ≤ min len (slice w.store src).length
  size : ((slice w.store src).take n).length = n
  store : w'.store = put w.store dst ((slice w.store src).take n)
  whole : w.outcomes = [] → w'.outcomes = [] ∧ n = min len (slice w.store src).length ∧ r = .ok (copied + n)

theorem Moved.part (short : len ≤ src.size) (moved : Moved copied w w' (upTo src len) dst n r) :
    Part len copied w w' src dst n r := by
  have here := sliceUpTo w.store src short
  have bytes := moved.bytes
  have store := moved.store
  have whole := moved.whole
  rw [here,List.length_take] at bytes whole
  rw [here,List.take_take,Nat.min_eq_left (Nat.le_trans bytes (Nat.min_le_left _ _))] at store
  refine ⟨bytes,?_,store,whole⟩
  rw [List.length_take]
  omega

theorem Moved.andThen (apart : src.place ≠ dst.place) (short : len ≤ src.size)
    (first : Moved 0 w w' (upTo src len) dst m (.ok m))
    (second : Moved (copied + m) w' w'' (src.shift m) (dst.shift m) n r) :
    Moved copied w w'' src dst (m + n) r := by
  obtain ⟨bound,size,store,quietly⟩ := first.part short
  have now : slice w'.store (src.shift m) = (slice w.store src).drop m := by
    rw [store,slicePut,sliceShift]
    exact apart
  have rest := second.bytes
  rw [now,List.length_drop] at rest
  refine ⟨by omega,?_,?_,fun quiet => ?_⟩
  · have joined := putAppend w.store dst ((slice w.store src).take m) (((slice w.store src).drop m).take n)
    rw [size,← List.take_add] at joined
    rw [second.store,now,store,joined]
  · rcases second.result with same | ⟨none,zero,error⟩
    · exact .inl (by rw [same,Nat.add_assoc])
    · exact .inr ⟨by omega,by omega,error⟩
  · obtain ⟨later,all,same⟩ := second.whole (quietly quiet).1
    rw [now,List.length_drop] at all
    exact ⟨later,by omega,by rw [same,Nat.add_assoc]⟩

theorem Moved.widen (short : len ≤ src.size) (fewer : n < len)
    (moved : Moved copied w w' (upTo src len) dst n r) : Moved copied w w' src dst n r := by
  obtain ⟨bound,-,store,quietly⟩ := moved.part short
  refine ⟨by omega,store,moved.result,fun quiet => ?_⟩
  obtain ⟨later,all,same⟩ := quietly quiet
  exact ⟨later,by omega,same⟩

end Calls

section Loops
variable {dst src : Buf}

def Buf.source (b : Buf) (off len : Nat) : Piece Place := ⟨b.place,b.pos + off,len⟩

theorem pieceShift (b : Buf) (off n : Nat) : (b.piece off).shift n = b.piece (off + n) := by
  simp [Buf.piece,Piece.shift,Nat.add_assoc,Nat.sub_sub]

theorem sourceShift (b : Buf) (off len n : Nat) : (b.source off len).shift n = b.source (off + n) (len - n) := by
  simp [Buf.source,Piece.shift,Nat.add_assoc]

theorem movedNothing (copied : Nat) (w : World) (dst src : Piece Place) (none : src.size = 0) :
    Moved copied w w src dst 0 (.ok copied) := by
  have empty : slice w.store src = [] := by simp [slice,none]
  exact ⟨by simp,by rw [List.take_zero,putNil],.inl rfl,fun quiet => ⟨quiet,by simp [empty],rfl⟩⟩

theorem callOnceMoved (dst : Buf) (dstOff : Nat) (src : Buf) (srcOff len : Nat) (w : World) :
    ∃ n, Moved 0 w (callOnce dst dstOff src srcOff len w).2 (src.source srcOff len) (dst.piece dstOff) n
      (callOnce dst dstOff src srcOff len w).1 := by
  unfold callOnce
  split
  · rename_i e answer
    refine ⟨0,by simp,by rw [List.take_zero,putNil],.inr ⟨rfl,rfl,e,rfl⟩,fun quiet => ?_⟩
    simp [quiet] at answer
  · rename_i count answer
    -- `data` is the front of the slice, and all of it when the call is not cut short.
    have taken (k : Nat) (l : Bytes) : l.take (l.take k).length = l.take k := by
      rw [List.length_take,List.take_eq_take_min]
      simp
    refine ⟨((slice w.store (src.source srcOff len)).take count).length,List.length_take_le' _ _,?_,.inl ?_,?_⟩
    · rw [taken]
      rfl
    · rw [Nat.zero_add]
      rfl
    · intro quiet
      obtain rfl : count = len := by simpa [quiet] using answer.symm
      have all := List.take_of_length_le (sliceSize w.store (src.source srcOff count))
      refine ⟨by simp [quiet],congrArg List.length all,?_⟩
      rw [Nat.zero_add]
      rfl

theorem callLoopMoved (retry : Bool) (apart : src.place ≠ dst.place) : ∀ {rounds len : Nat} (dstOff srcOff copied : Nat)
    (w : World), len ≤ rounds → ∃ r w' n, callLoop retry dst src rounds dstOff srcOff len copied w = some (r,w') ∧
      Moved copied w w' (src.source srcOff len) (dst.piece dstOff) n r := by
  intro rounds
  induction rounds with
  | zero =>
    intro len dstOff srcOff copied w enough
    obtain rfl := Nat.le_zero.mp enough
    exact ⟨_,w,0,rfl,movedNothing copied w _ _ rfl⟩
  | succ rounds ih =>
    intro len dstOff srcOff copied w enough
    cases len with
    | zero => exact ⟨_,w,0,rfl,movedNothing copied w _ _ rfl⟩
    | succ len =>
      obtain ⟨n,moved⟩ := callOnceMoved dst dstOff src srcOff (len + 1) w
      rw [callLoop]
      split
      · rename_i e w' call
        rw [call] at moved
        exact ⟨_,w',0,rfl,moved.fail copied⟩
      · rename_i res w' call
        rw [call] at moved
        obtain rfl := moved.ok
        split
        · rename_i none
          subst none
          exact ⟨_,w',0,rfl,moved.stop copied⟩
        · split
          · exact ⟨_,w',res,rfl,moved.stop copied⟩
          · obtain ⟨r,w'',n,ok,more⟩ := ih (dstOff + res) (srcOff + res) (copied + res) w'
              (show len + 1 - res ≤ rounds by omega)
            rw [← sourceShift,← pieceShift] at more
            exact ⟨r,w'',res + n,ok,moved.andThen apart (Nat.le_refl _) more⟩

theorem writeMoved (apart : src.place ≠ dst.place) (dstOff srcOff len : Nat) (w : World) :
    ∃ r w' n, fuseBufWrite dst dstOff src srcOff len w = some (r,w') ∧
      Moved 0 w w' (src.source srcOff len) (dst.piece dstOff) n r :=
  callLoopMoved dst.retry apart dstOff srcOff 0 w (Nat.le_refl _)

theorem readMoved (apart : src.place ≠ dst.place) (dstOff srcOff len : Nat) (w : World) :
    ∃ r w' n, fuseBufRead dst dstOff src srcOff len w = some (r,w') ∧
      Moved 0 w w' (src.source srcOff len) (dst.piece dstOff) n r :=
  callLoopMoved src.retry apart dstOff srcOff 0 w (Nat.le_refl _)

theorem sliceFree {w : World} {p : Piece Place} (other : p.place ≠ .scratch) :
    slice w.free.store p = slice w.store p := by
  have same : w.free.store p.place = w.store p.place := Function.update_of_ne other _ _
  rw [slice,same,slice]

theorem freePut {w w' : World} {p : Piece Place} {data : Bytes} (other : p.place ≠ .scratch)
    (store : w'.store = put w.store p data) : w'.free.store = put w.free.store p data := by
  simp only [World.free,store,put,Function.update_of_ne other]
  exact Function.update_comm other _ _ _

theorem throughBuffer {p : Piece Place} {q : Piece Place} {w w' w'' : World} {m n : Nat} {r : Except Errno Nat}
    (other : q.place ≠ .scratch) (source : p.place ≠ .scratch)
    (read : Moved 0 w w' p (tmp.piece 0) m (.ok m))
    (written : Moved 0 w' w'' (tmp.source 0 m) q n r) : Moved 0 w.free w''.free p q n r := by
  have size : ((slice w.store p).take m).length = m := List.length_take_of_le read.bytes
  have buffer : slice w'.store (tmp.source 0 m) = (slice w.store p).take m := by
    rw [read.store]
    have own := sliceOwn w.store (tmp.piece 0) ((slice w.store p).take m)
    rwa [size] at own
  have bound := written.bytes
  rw [buffer,size] at bound
  have front : ((slice w.store p).take m).take n = (slice w.store p).take n := by
    rw [List.take_take,Nat.min_eq_left bound]
  refine ⟨?_,?_,written.result,fun quiet => ?_⟩
  · rw [sliceFree source]
    exact Nat.le_trans bound read.bytes
  · rw [sliceFree source,freePut other written.store,buffer,front]
    congr 1
    rw [World.free,World.free,read.store,put]
    exact Function.update_idem _ _ _
  · obtain ⟨later,all,-⟩ := read.whole quiet
    obtain ⟨last,rest,same⟩ := written.whole later
    rw [buffer,size] at rest
    exact ⟨last,by rw [sliceFree source,rest,all],same⟩

theorem freeMoved {copied : Nat} {p : Piece Place} {w w' : World} {r : Except Errno Nat}
    (source : p.place ≠ .scratch) (read : Moved copied w w' p (tmp.piece 0) 0 r) (q : Piece Place) :
    Moved copied w.free w'.free p q 0 r := by
  refine ⟨Nat.zero_le _,?_,read.result,fun quiet => ?_⟩
  · rw [List.take_zero,putNil,World.free,World.free,read.store,put]
    exact Function.update_idem _ _ _
  · rw [sliceFree source]
    exact read.whole quiet

theorem fdToFdLoopMoved (apart : src.place ≠ dst.place) (source : src.place ≠ .scratch) (target : dst.place ≠ .scratch) :
    ∀ {rounds len : Nat} (dstOff srcOff copied : Nat) (w : World), len ≤ rounds →
      ∃ r w' n, fdToFdLoop dst src rounds dstOff srcOff len copied w = some (r,w') ∧
        Moved copied w.free w'.free (src.source srcOff len) (dst.piece dstOff) n r := by
  intro rounds
  induction rounds with
  | zero =>
    intro len dstOff srcOff copied w enough
    obtain rfl := Nat.le_zero.mp enough
    exact ⟨_,w,0,rfl,movedNothing copied w.free _ _ rfl⟩
  | succ rounds ih =>
    intro len dstOff srcOff copied w enough
    cases len with
    | zero => exact ⟨_,w,0,rfl,movedNothing copied w.free _ _ rfl⟩
    | succ len =>
      have short : min tmp.size (len + 1) ≤ len + 1 := Nat.min_le_right _ _
      have positive : 0 < min tmp.size (len + 1) := Nat.lt_min.mpr ⟨by decide,Nat.succ_pos _⟩
      have toBuffer : src.place ≠ tmp.place := source
      have fromBuffer : tmp.place ≠ dst.place := Ne.symm target
      obtain ⟨r,w',m,read,moved⟩ := readMoved toBuffer 0 srcOff (min tmp.size (len + 1)) w
      simp only [fdToFdLoop,read]
      cases r with
      | error e => exact ⟨_,w',0,rfl,(freeMoved source (moved.fail copied) _).widen short positive⟩
      | ok readLen =>
        obtain rfl := moved.ok
        by_cases ended : readLen = 0
        · subst ended
          exact ⟨_,w',0,rfl,(freeMoved source (moved.stop copied) _).widen short positive⟩
        simp only [if_neg ended]
        obtain ⟨r,w₂,n,write,stored⟩ := writeMoved fromBuffer dstOff 0 readLen w'
        have through := throughBuffer target source moved stored
        simp only [write]
        cases r with
        | error e => exact ⟨_,w₂,0,rfl,(through.fail copied).widen short positive⟩
        | ok res =>
          obtain rfl := stored.ok
          by_cases full : res = 0
          · subst full
            exact ⟨_,w₂,0,rfl,(through.stop copied).widen short positive⟩
          simp only [if_neg full]
          by_cases fewer : res < min tmp.size (len + 1)
          · rw [if_pos fewer]
            exact ⟨_,w₂,res,rfl,(through.stop copied).widen short fewer⟩
          · rw [if_neg fewer]
            obtain ⟨r,w₃,n,ok,more⟩ := ih (dstOff + res) (srcOff + res) (copied + res) w₂
              (show len + 1 - res ≤ rounds by omega)
            rw [← sourceShift,← pieceShift] at more
            exact ⟨r,w₃,res + n,ok,Moved.andThen apart short through more⟩

theorem fdToFdMoved (apart : src.place ≠ dst.place) (source : src.place ≠ .scratch) (target : dst.place ≠ .scratch)
    {w : World} (unused : w.store .scratch = []) (dstOff srcOff len : Nat) :
    ∃ r w' n, fuseBufFdToFd dst dstOff src srcOff len w = some (r,w') ∧
      Moved 0 w w' (src.source srcOff len) (dst.piece dstOff) n r := by
  obtain ⟨r,w',n,ok,moved⟩ := fdToFdLoopMoved apart source target dstOff srcOff 0 w (Nat.le_refl len)
  have same : w.free = w := by
    rw [World.free,← unused,Function.update_eq_self]
  rw [same] at moved
  exact ⟨r,w'.free,n,by rw [fuseBufFdToFd,ok]; rfl,moved⟩

theorem memoryMoved (apart : src.place ≠ dst.place) {w : World} {srcOff len : Nat}
    (inside : src.pos + srcOff + len ≤ (w.store src.place).length) (dstOff : Nat) :
    Moved 0 w (moveMemory dst dstOff src srcOff len w) (src.source srcOff len) (dst.piece dstOff) len (.ok len) := by
  have size : (slice w.store (src.source srcOff len)).length = len := by
    simp only [slice,Buf.source,List.length_take,List.length_drop]
    omega
  have elsewhere : ¬ (dst.place = src.place ∧ dst.pos + dstOff = src.pos + srcOff) := fun same => apart same.1.symm
  have all : (slice w.store (src.source srcOff len)).take len = slice w.store (src.source srcOff len) :=
    List.take_of_length_le (Nat.le_of_eq size)
  refine ⟨Nat.le_of_eq size.symm,?_,.inl (by rw [Nat.zero_add]),fun quiet => ⟨?_,size.symm,by rw [Nat.zero_add]⟩⟩
  · rw [moveMemory,if_neg elsewhere,all]
    rfl
  · rw [moveMemory,if_neg elsewhere]
    exact quiet

structure Sound (dsts srcs : List Buf) (store : Place → Bytes) : Prop where
  apart : ∀ d ∈ dsts, ∀ b ∈ srcs, b.place ≠ d.place
  target : ∀ d ∈ dsts, d.place ≠ .scratch
  source : ∀ b ∈ srcs, b.place ≠ .scratch
  memory : ∀ b ∈ srcs, b.isFd = false → b.pos + b.size ≤ (store b.place).length
  unused : store .scratch = []

theorem copyOneMoved {dsts srcs : List Buf} {w : World} {flags : Flags} (dstOff : Nat) {srcOff len : Nat}
    (sound : Sound dsts srcs w.store) (there : dst ∈ dsts) (here : src ∈ srcs) (short : srcOff + len ≤ src.size)
    (free : flags.forceSplice = false) :
    ∃ r w' n, fuseBufCopyOne dst dstOff src srcOff len flags w = some (r,w') ∧
      Moved 0 w w' (src.source srcOff len) (dst.piece dstOff) n r := by
  have apart := sound.apart dst there src here
  have files := fdToFdMoved apart (sound.source src here) (sound.target dst there) sound.unused dstOff srcOff len
  unfold fuseBufCopyOne
  split
  · rename_i memory _
    have inside := sound.memory src here memory
    exact ⟨_,_,len,rfl,memoryMoved apart (by omega) dstOff⟩
  · exact writeMoved apart dstOff srcOff len w
  · exact readMoved apart dstOff srcOff len w
  · split
    · exact files
    · unfold fuseBufSplice
      split
      · rename_i none
        subst none
        exact ⟨_,w,0,rfl,movedNothing 0 w _ _ rfl⟩
      · rw [if_neg (by simp [free])]
        exact files

theorem soundPut {dsts srcs : List Buf} {store : Place → Bytes} (sound : Sound dsts srcs store) (there : dst ∈ dsts)
    (off : Nat) (data : Bytes) : Sound dsts srcs (put store (dst.piece off) data) where
  apart := sound.apart
  target := sound.target
  source := sound.source
  memory := by
    intro b mem inMemory
    rw [putElsewhere store (dst.piece off) data (sound.apart dst there b mem)]
    exact sound.memory b mem inMemory
  unused := by
    rw [putElsewhere store (dst.piece off) data (Ne.symm (sound.target dst there))]
    exact sound.unused

end Loops

section Vectors

def Bufvec.left (v : Bufvec) : Nat := v.bufs.length - v.idx

def Bufvec.tail (v : Bufvec) : List (Piece Place) := (v.bufs.drop (v.idx + 1)).map fun b => b.piece 0

def Bufvec.rest (v : Bufvec) : List (Piece Place) := match fuseBufvecCurrent v with
  | none => []
  | some b => b.piece v.off :: v.tail

def Bufvec.Well (v : Bufvec) : Prop := ∀ b ∈ fuseBufvecCurrent v, v.off ≤ b.size

theorem restNext (bufs : List Buf) (idx : Nat) :
    Bufvec.rest ⟨bufs,idx,0⟩ = (bufs.drop idx).map fun b => b.piece 0 := by
  unfold Bufvec.rest fuseBufvecCurrent Bufvec.tail
  cases found : bufs[idx]? with
  | none => simp [List.drop_eq_nil_of_le (List.getElem?_eq_none_iff.mp found)]
  | some b =>
    obtain ⟨bound,same⟩ := List.getElem?_eq_some_iff.mp found
    rw [List.drop_eq_getElem_cons bound,same]
    rfl

theorem advanceRest {v : Bufvec} {b : Buf} {n : Nat} (here : fuseBufvecCurrent v = some b) (well : v.Well)
    (short : n ≤ b.size - v.off) : ∃ more v', fuseBufvecAdvance v n = some (more,v') ∧ v'.bufs = v.bufs ∧ v'.Well ∧
      v'.rest = after n (b.piece v.off) v.tail ∧ (more = false → v'.rest = []) ∧ v'.left ≤ v.left ∧
      (n = b.size - v.off → v'.left < v.left) := by
  have inside := well b here
  obtain ⟨bound,same⟩ := List.getElem?_eq_some_iff.mp here
  have fits : ¬ b.size < v.off + n := by omega
  simp only [fuseBufvecAdvance,here,if_neg fits]
  split
  · rename_i full
    have done : ¬ n < (b.piece v.off).size := by
      show ¬ n < b.size - v.off
      omega
    rw [after,if_neg done]
    split
    · rename_i last
      have none : v.bufs[v.idx + 1]? = none := List.getElem?_eq_none_iff.mpr (by omega)
      have empty : v.tail = [] := by
        rw [Bufvec.tail,List.drop_eq_nil_of_le (by omega)]
        rfl
      refine ⟨_,_,rfl,rfl,?_,?_,?_,?_,fun _ => ?_⟩
      · intro c found
        simp [fuseBufvecCurrent,none] at found
      · simp [Bufvec.rest,fuseBufvecCurrent,none,empty]
      · intro _
        simp [Bufvec.rest,fuseBufvecCurrent,none]
      · simp only [Bufvec.left]
        omega
      · simp only [Bufvec.left]
        omega
    · refine ⟨_,_,rfl,rfl,?_,restNext _ _,fun ended => (by cases ended),?_,fun _ => ?_⟩
      · intro c found
        exact Nat.zero_le _
      · simp only [Bufvec.left]
        omega
      · simp only [Bufvec.left]
        omega
  · rename_i part
    have more : n < (b.piece v.off).size := by
      show n < b.size - v.off
      omega
    have again : fuseBufvecCurrent {v with off := v.off + n} = some b := here
    rw [after,if_pos more,pieceShift]
    refine ⟨_,_,rfl,rfl,?_,?_,fun ended => (by cases ended),Nat.le_refl _,fun all => ?_⟩
    · intro c found
      cases Option.some.inj (again.symm.trans found)
      show v.off + n ≤ b.size
      omega
    · simp only [Bufvec.rest,again]
      rfl
    · omega

end Vectors

section Copy

structure Streamed (copied : Nat) (w w' : World) (srcs dsts : List (Piece Place)) (n : Nat)
    (r : Except Errno Nat) : Prop where
  bytes : n ≤ (gather w.store srcs).length
  fits : n ≤ room dsts
  store : w'.store = scatter dsts ((gather w.store srcs).take n) w.store
  result : r = .ok (copied + n) ∨ copied = 0 ∧ n = 0 ∧ ∃ e, r = .error e
  whole : w.outcomes = [] → r = .ok (copied + n) ∧ n = min (available w.store srcs) (room dsts)

variable {copied m n : Nat} {w w' w'' : World} {p q : Piece Place} {ps qs : List (Piece Place)}
  {r : Except Errno Nat}

theorem streamedNothing (copied : Nat) (w : World) (ps qs : List (Piece Place)) (none : ps = [] ∨ qs = []) :
    Streamed copied w w ps qs 0 (.ok copied) := by
  refine ⟨Nat.zero_le _,Nat.zero_le _,?_,.inl rfl,fun _ => ⟨rfl,?_⟩⟩
  · rw [List.take_zero,scatterNil]
  · rcases none with rfl | rfl <;> simp [room,available]

theorem Streamed.cons (apart : ∀ s ∈ p :: ps, s.place ≠ q.place)
    (first : Moved 0 w w' (upTo p (min p.size q.size)) q m (.ok m))
    (second : Streamed (copied + m) w' w'' (after m p ps) (after m q qs) n r) :
    Streamed copied w w'' (p :: ps) (q :: qs) (m + n) r := by
  obtain ⟨bound,size,store,quietly⟩ := first.part (Nat.min_le_left _ _)
  have later : ∀ s ∈ after m p ps, s.place ≠ q.place := by
    intro s mem
    obtain ⟨old,inside,place⟩ := afterPlaces p ps mem
    rw [← place]
    exact apart old inside
  have now : gather w'.store (after m p ps) = gather w.store (after m p ps) := by
    rw [store,gatherPut w.store q _ later]
  have stream := gatherAfter w.store p ps m
  have bytes := second.bytes
  have fits := second.fits
  have more := roomAfter q qs (show m ≤ q.size by omega)
  rw [now] at bytes
  refine ⟨?_,by omega,?_,?_,fun quiet => ?_⟩
  · rw [stream,List.length_append,size]
    omega
  · have front : (gather w.store (p :: ps)).take (m + n) =
        (slice w.store p).take m ++ (gather w.store (after m p ps)).take n := by
      rw [stream,List.take_append,size,Nat.add_sub_cancel_left,List.take_of_length_le (by omega)]
    rw [front,scatterAfter w.store q qs (by omega),size,second.store,now,store]
  · rcases second.result with same | ⟨none,zero,error⟩
    · exact .inl (by rw [same,Nat.add_assoc])
    · exact .inr ⟨by omega,by omega,error⟩
  · obtain ⟨same,all⟩ := second.whole (quietly quiet).1
    have left := availableAfter w.store p ps (show m ≤ (slice w.store p).length by omega)
    rw [store,availablePut w.store q _ later] at all
    exact ⟨by rw [same,Nat.add_assoc],by omega⟩

theorem Streamed.last (moved : Moved copied w w' (upTo p (min p.size q.size)) q m r)
    (cut : w.outcomes = [] → m < min p.size q.size) :
    Streamed copied w w' (p :: ps) (q :: qs) m r := by
  obtain ⟨bound,size,store,quietly⟩ := moved.part (Nat.min_le_left _ _)
  have stream := gatherAfter w.store p ps m
  have more := roomAfter q qs (show m ≤ q.size by omega)
  refine ⟨?_,by omega,?_,moved.result,fun quiet => ?_⟩
  · rw [stream,List.length_append,size]
    omega
  · have front : (gather w.store (p :: ps)).take m = (slice w.store p).take m := by
      rw [stream,List.take_append,size,Nat.sub_self,List.take_zero,List.append_nil,
        List.take_of_length_le (Nat.le_of_eq size)]
    have alone := scatterAfter w.store q qs (show ((slice w.store p).take m).length ≤ q.size by omega) []
    rw [List.append_nil,scatterNil] at alone
    rw [front,alone,store]
  · obtain ⟨-,all,same⟩ := quietly quiet
    have fewer := cut quiet
    rw [available,if_neg (by omega)]
    exact ⟨same,by omega⟩

theorem restPlaces {v : Bufvec} {s : Piece Place} (mem : s ∈ v.rest) : ∃ b ∈ v.bufs, b.place = s.place := by
  unfold Bufvec.rest at mem
  split at mem
  · cases mem
  · rename_i b here
    rcases List.mem_cons.mp mem with rfl | inside
    · exact ⟨b,List.mem_of_getElem? here,rfl⟩
    · obtain ⟨c,later,rfl⟩ := List.mem_map.mp inside
      exact ⟨c,List.mem_of_mem_drop later,rfl⟩

theorem roundMoved {flags : Flags} (free : flags.forceSplice = false) {dstv srcv : Bufvec} {dst src : Buf} {w : World}
    (toDst : fuseBufvecCurrent dstv = some dst) (fromSrc : fuseBufvecCurrent srcv = some src) (srcWell : srcv.Well)
    (sound : Sound dstv.bufs srcv.bufs w.store) :
    (∀ s ∈ src.piece srcv.off :: srcv.tail, s.place ≠ (dst.piece dstv.off).place) ∧
    ∃ r w' m, m ≤ min (src.size - srcv.off) (dst.size - dstv.off) ∧ fuseBufCopyOne dst dstv.off src srcv.off
        (min (src.size - srcv.off) (dst.size - dstv.off)) flags w = some (r,w') ∧
      Moved 0 w w' (upTo (src.piece srcv.off) (min (src.piece srcv.off).size (dst.piece dstv.off).size))
        (dst.piece dstv.off) m r := by
  have inDst : dst ∈ dstv.bufs := List.mem_of_getElem? toDst
  have inside := srcWell src fromSrc
  obtain ⟨r,w',m,copy,moved⟩ := copyOneMoved dstv.off sound inDst (List.mem_of_getElem? fromSrc)
    (show srcv.off + min (src.size - srcv.off) (dst.size - dstv.off) ≤ src.size by omega) free
  refine ⟨?_,r,w',m,Nat.le_trans moved.bytes (sliceSize _ _),copy,moved⟩
  intro s mem
  obtain ⟨b,found,same⟩ := restPlaces (v := srcv) (by rwa [Bufvec.rest,fromSrc])
  rw [← same]
  exact sound.apart dst inDst b found

theorem copyLoopStreamed {flags : Flags} (free : flags.forceSplice = false) {dsts srcs : List Buf} :
    ∀ {rounds : Nat} {dstv srcv : Bufvec} (copied : Nat) {w : World}, dstv.left + srcv.left < rounds →
      dstv.bufs = dsts → srcv.bufs = srcs → dstv.Well → srcv.Well → Sound dsts srcs w.store →
      ∃ r w' n, copyLoop flags rounds dstv srcv copied w = some (r,w') ∧
        Streamed copied w w' srcv.rest dstv.rest n r := by
  intro rounds
  induction rounds with
  | zero => exact fun _ _ enough => absurd enough (Nat.not_lt_zero _)
  | succ rounds ih =>
    intro dstv srcv copied w enough isDst isSrc dstWell srcWell sound
    cases fromSrc : fuseBufvecCurrent srcv with
    | none =>
      have atEnd : srcv.rest = [] := by simp [Bufvec.rest,fromSrc]
      exact ⟨_,w,0,by simp [copyLoop,fromSrc],streamedNothing copied w _ _ (.inl atEnd)⟩
    | some src =>
      cases toDst : fuseBufvecCurrent dstv with
      | none =>
        have atEnd : dstv.rest = [] := by simp [Bufvec.rest,toDst]
        exact ⟨_,w,0,by simp [copyLoop,fromSrc,toDst],streamedNothing copied w _ _ (.inr atEnd)⟩
      | some dst =>
        have restSrc : srcv.rest = src.piece srcv.off :: srcv.tail := by simp [Bufvec.rest,fromSrc]
        have restDst : dstv.rest = dst.piece dstv.off :: dstv.tail := by simp [Bufvec.rest,toDst]
        obtain ⟨apart,r,w₁,m,bound,copy,moved⟩ := roundMoved free toDst fromSrc srcWell (isDst ▸ isSrc ▸ sound)
        rw [restSrc,restDst]
        simp only [copyLoop,fromSrc,toDst,copy]
        cases r with
        | error e =>
          refine ⟨_,w₁,0,rfl,Streamed.last (moved.fail copied) fun quiet => ?_⟩
          cases (moved.whole quiet).2.2
        | ok res =>
          obtain rfl := moved.ok
          obtain ⟨more,srcv',advanced,sameSrc,wellSrc,nextSrc,overSrc,leftSrc,doneSrc⟩ :=
            advanceRest fromSrc srcWell (show res ≤ src.size - srcv.off by omega)
          simp only [advanced,bind,Option.bind_some]
          cases more with
          | false =>
            have nothing := streamedNothing (copied + res) w₁ _ (after res (dst.piece dstv.off) dstv.tail)
              (.inl (nextSrc.symm.trans (overSrc rfl)))
            exact ⟨_,w₁,res + 0,rfl,Streamed.cons apart moved nothing⟩
          | true =>
            obtain ⟨more,dstv',advanced,sameDst,wellDst,nextDst,overDst,leftDst,doneDst⟩ :=
              advanceRest toDst dstWell (show res ≤ dst.size - dstv.off by omega)
            simp only [advanced,Option.bind_some,Bool.not_true,Bool.false_eq_true,if_false]
            cases more with
            | false =>
              have nothing := streamedNothing (copied + res) w₁ (after res (src.piece srcv.off) srcv.tail) _
                (.inr (nextDst.symm.trans (overDst rfl)))
              exact ⟨_,w₁,res + 0,rfl,Streamed.cons apart moved nothing⟩
            | true =>
              simp only [Bool.not_true,Bool.false_eq_true,if_false]
              split
              · rename_i fewer
                exact ⟨_,w₁,res,rfl,Streamed.last (moved.stop copied) fun _ => fewer⟩
              · have still : Sound dsts srcs w₁.store := by
                  rw [moved.store]
                  exact soundPut sound (isDst ▸ List.mem_of_getElem? toDst) _ _
                obtain ⟨r,w₂,n,ok,later⟩ := ih (copied + res) (show dstv'.left + srcv'.left < rounds by omega)
                  (sameDst.trans isDst) (sameSrc.trans isSrc) wellDst wellSrc still
                rw [nextSrc,nextDst] at later
                exact ⟨r,w₂,res + n,ok,Streamed.cons apart moved later⟩

theorem copyStreamed {dstv srcv : Bufvec} {flags : Flags} {w : World} (free : flags.forceSplice = false)
    (dstWell : dstv.Well) (srcWell : srcv.Well) (sound : Sound dstv.bufs srcv.bufs w.store) :
    ∃ r w' n, fuseBufCopy dstv srcv flags w = some (r,w') ∧ Streamed 0 w w' srcv.rest dstv.rest n r := by
  refine copyLoopStreamed free 0 ?_ rfl rfl dstWell srcWell sound
  simp only [Bufvec.left]
  omega

theorem copiesPrefix {dstv srcv : Bufvec} {flags : Flags} {w : World} (free : flags.forceSplice = false)
    (dstWell : dstv.Well) (srcWell : srcv.Well) (sound : Sound dstv.bufs srcv.bufs w.store) :
    ∃ r w' n, fuseBufCopy dstv srcv flags w = some (r,w') ∧
      n ≤ (gather w.store srcv.rest).length ∧ n ≤ room dstv.rest ∧
      w'.store = scatter dstv.rest ((gather w.store srcv.rest).take n) w.store ∧
      (r = .ok n ∨ n = 0 ∧ ∃ e, r = .error e) ∧
      (w.outcomes = [] → r = .ok (min (available w.store srcv.rest) (room dstv.rest))) := by
  obtain ⟨r,w',n,ok,streamed⟩ := copyStreamed free dstWell srcWell sound
  refine ⟨r,w',n,ok,streamed.bytes,streamed.fits,streamed.store,?_,fun quiet => ?_⟩
  · rcases streamed.result with same | ⟨-,none,error⟩
    · exact .inl (by rw [same,Nat.zero_add])
    · exact .inr ⟨none,error⟩
  · obtain ⟨same,all⟩ := streamed.whole quiet
    rw [same,Nat.zero_add,all]

def cutSrc : Bufvec := ⟨[⟨.file 3,0,4,false⟩,⟨.file 3,4,4,false⟩],0,0⟩

def cutDst : Bufvec := ⟨[⟨.memory 0,0,3,false⟩,⟨.memory 1,0,9,false⟩],0,0⟩

def cutWorld : World where
  store := fun place => if place = .file 3 then [1,2,3,4,5,6,7,8] else []
  outcomes := [.ok 3,.ok 1]

theorem cutCopies : ∃ r w' n, fuseBufCopy cutDst cutSrc ⟨true,false⟩ cutWorld = some (r,w') ∧
    n ≤ (gather cutWorld.store cutSrc.rest).length ∧ n ≤ room cutDst.rest ∧
    w'.store = scatter cutDst.rest ((gather cutWorld.store cutSrc.rest).take n) cutWorld.store ∧
    (r = .ok n ∨ n = 0 ∧ ∃ e, r = .error e) ∧
    (cutWorld.outcomes = [] →
      r = .ok (min (available cutWorld.store cutSrc.rest) (room cutDst.rest))) := by
  refine copiesPrefix rfl (fun _ _ => Nat.zero_le _) (fun _ _ => Nat.zero_le _) ⟨?_,?_,?_,?_,rfl⟩
  all_goals decide

end Copy

end F3.Fuse
