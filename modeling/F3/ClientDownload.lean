import F3.Lib.GoCopy
import F3.Lib.Run

/-! Downloads of a File in pieces. downloadMore runs under dlLock and is one step here;
readahead first reads the position, in a step of its own, and then calls it. The local file
is the one that openConnection has opened for appending. Positions are int64. -/
namespace F3.Client.Pieces
open Lib (Bytes)
open Lib.Run (run Meets)
open Lib.GoCopy

def blockSize : Int := 4 * 1024 * 1024
def readaheadSize : Int := 10 * blockSize

def int64 (n : Int) : Int := n.bmod (2 ^ 64)

/- `ahead` are the end bytes of the readahead calls that have read the position, `returned`
the end bytes and results of the downloadMore calls that have returned. -/
structure File where
  pos : Int
  pipe : Pipe
  ahead : List Int
  returned : List (Int × Except Unit Int)

def openConnection (content : Bytes) : File := ⟨int64 content.length,⟨content,0,false⟩,[],[]⟩

-- "Round up to nearest block size"
def roundUp (endByte : Int) : Int := int64 (endByte + int64 (blockSize - endByte.tmod blockSize))

def downloadMore (stream : Bytes) (f : File) (endByte : Int) (reads : List Read) : Option File :=
  if f.pos ≥ endByte then some {f with returned := (endByte,.ok 0) :: f.returned}
  else do
    let (w,err,pipe) ← copyN stream reads (int64 (roundUp endByte - f.pos)) f.pipe
    match err with
    | some err => some {f with
        pos := int64 (f.pos + w)
        pipe := pipe
        returned := (endByte,if err = .eof then .ok w else .error ()) :: f.returned}
    | none => some {f with
        pos := roundUp endByte
        pipe := pipe
        returned := (endByte,.ok w) :: f.returned}

inductive Step where
  | downloadMore (endByte : Int) (reads : List Read)
  | readahead
  | resume (i : Nat) (reads : List Read)
  deriving DecidableEq, Repr

def step (stream : Bytes) (f : File) : Step → Option File
  | .downloadMore endByte reads => downloadMore stream f endByte reads
  | .readahead => some {f with ahead := f.ahead ++ [int64 (int64 (f.pos + readaheadSize) + readaheadSize)]}
  | .resume i reads => do
      let endByte ← f.ahead[i]?
      downloadMore stream {f with ahead := f.ahead.eraseIdx i} endByte reads

def Fits (endByte : Int) : Prop :=
  -(2 ^ 63) ≤ endByte ∧ endByte + (blockSize - endByte.tmod blockSize) < 2 ^ 63
instance (endByte) : Decidable (Fits endByte) := by unfold Fits; infer_instance

def Rounds (f : File) : Step → Prop
  | .downloadMore endByte _ => Fits endByte
  | .readahead => True
  | .resume i _ => ∀ endByte ∈ f.ahead[i]?, Fits endByte
instance (f a) : Decidable (Rounds f a) := by
  unfold Rounds
  rcases a <;> infer_instance

theorem int64Same {n : Int} (low : -(2 ^ 63) ≤ n) (high : n < 2 ^ 63) : int64 n = n := by
  unfold int64
  rw [Int.bmod_eq_of_le] <;> omega

theorem roundUpAbove {endByte : Int} (positive : 0 < endByte) (fits : Fits endByte) :
    endByte < roundUp endByte ∧ roundUp endByte < 2 ^ 63 := by
  have rest : 0 ≤ endByte.tmod blockSize ∧ endByte.tmod blockSize < blockSize :=
    ⟨Int.tmod_nonneg _ (Int.le_of_lt positive),Int.tmod_lt_of_pos _ (by decide)⟩
  have size : blockSize = 4194304 := rfl
  unfold Fits at fits
  have inner : int64 (blockSize - endByte.tmod blockSize) = blockSize - endByte.tmod blockSize :=
    int64Same (by omega) (by omega)
  rw [roundUp,inner,int64Same (by omega) (by omega)]
  omega

structure Placed (content stream : Bytes) (f : File) : Prop where
  pos : f.pos = f.pipe.content.length
  small : f.pos < 2 ^ 63
  content : f.pipe.content = content ++ stream.take f.pipe.taken
  inside : f.pipe.taken ≤ stream.length
  reached : ∀ endByte w, (endByte,.ok w) ∈ f.returned → endByte ≤ f.pos ∨ f.pipe.ended = true

theorem openPlaced {content : Bytes} (stream : Bytes) (size : content.length < 2 ^ 63) :
    Placed content stream (openConnection content) := by
  rw [openConnection,int64Same (by omega) (by omega)]
  exact ⟨rfl,by simp only; omega,by simp,Nat.zero_le _,by simp⟩

theorem grownContent {content stream : Bytes} {f : File} {pipe : Pipe} {w : Nat} (placed : Placed content stream f)
    (grown : Grown stream f.pipe pipe w) : pipe.content = content ++ stream.take pipe.taken ∧
      pipe.taken ≤ stream.length ∧ (pipe.content.length : Int) = f.pos + w := by
  have inside := grown.inside placed.inside
  refine ⟨?_,inside,?_⟩
  · rw [grown.content,placed.content,List.append_assoc,Bytes.takeNext,grown.taken]
  · have taken := grown.taken
    have old := placed.inside
    rw [placed.pos,grown.content,List.length_append,List.length_take,List.length_drop]
    omega

/- A dlLock section, whatever the reads return. Where the copy ends early the position moves by
what was written, else it is set to the rounded end. -/
theorem downloadPlaced {content stream : Bytes} {f f' : File} {endByte : Int} {reads : List Read}
    (placed : Placed content stream f) (fits : Fits endByte)
    (ok : downloadMore stream f endByte reads = some f') : Placed content stream f' := by
  have older {pos : Int} {pipe : Pipe} {k : Nat} (further : f.pos ≤ pos) (grown : Grown stream f.pipe pipe k) :
      ∀ end_ w, (end_,.ok w) ∈ f.returned → end_ ≤ pos ∨ pipe.ended = true := by
    intro end_ w mem
    rcases placed.reached end_ w mem with below | ended
    · exact .inl (Int.le_trans below further)
    · exact .inr (grown.ended ended)
  unfold downloadMore at ok
  split at ok
  · rename_i past
    cases Option.some.inj ok
    refine ⟨placed.pos,placed.small,placed.content,placed.inside,fun end_ w mem => ?_⟩
    rcases List.mem_cons.mp mem with new | old
    · cases new
      exact .inl past
    · exact placed.reached end_ w old
  · rename_i before
    obtain ⟨⟨w,err,pipe⟩,copied,ok⟩ := Option.bind_eq_some_iff.mp ok
    have positive : 0 ≤ f.pos := placed.pos ▸ Int.natCast_nonneg _
    have above := roundUpAbove (show 0 < endByte by omega) fits
    have room : int64 (roundUp endByte - f.pos) = roundUp endByte - f.pos := int64Same (by omega) (by omega)
    rw [room] at copied
    obtain ⟨bound,grown,whole,eof⟩ := copyNSpec (show 0 ≤ roundUp endByte - f.pos by omega) copied
    obtain ⟨isContent,inside,size⟩ := grownContent placed grown
    cases err with
    | some err =>
      have moved : int64 (f.pos + w) = f.pos + w := int64Same (by omega) (by omega)
      cases Option.some.inj ok
      refine ⟨moved.trans size.symm,show int64 (f.pos + w) < 2 ^ 63 by omega,isContent,inside,fun end_ v mem => ?_⟩
      rcases List.mem_cons.mp mem with new | old
      · by_cases isEof : err = .eof
        · exact .inr (eof (isEof ▸ rfl))
        · simp [isEof] at new
      · exact older (show f.pos ≤ int64 (f.pos + w) by omega) grown end_ v old
    | none =>
      have all := whole rfl
      cases Option.some.inj ok
      refine ⟨by simp only; omega,above.2,isContent,inside,fun end_ v mem => ?_⟩
      rcases List.mem_cons.mp mem with new | old
      · cases new
        exact .inl (Int.le_of_lt above.1)
      · exact older (show f.pos ≤ roundUp endByte by omega) grown end_ v old

theorem stepPlaced {content stream : Bytes} {f f' : File} {a : Step} (placed : Placed content stream f)
    (rounds : Rounds f a) (ok : step stream f a = some f') : Placed content stream f' := by
  cases a with
  | downloadMore endByte reads => exact downloadPlaced placed rounds ok
  | readahead =>
    cases Option.some.inj ok
    exact ⟨placed.pos,placed.small,placed.content,placed.inside,placed.reached⟩
  | resume i reads =>
    obtain ⟨endByte,here,ok⟩ := Option.bind_eq_some_iff.mp ok
    have waiting : Placed content stream {f with ahead := f.ahead.eraseIdx i} :=
      ⟨placed.pos,placed.small,placed.content,placed.inside,placed.reached⟩
    exact downloadPlaced waiting (rounds endByte here) ok

theorem piecesPlaced {content stream : Bytes} {steps : List Step} {f : File} (size : content.length < 2 ^ 63)
    (rounds : Meets (step stream) Rounds (openConnection content) steps)
    (ok : run (step stream) (openConnection content) steps = some f) :
    f.pos = f.pipe.content.length ∧ f.pipe.content = content ++ stream.take f.pipe.taken ∧
      f.pipe.taken ≤ stream.length ∧
      ∀ endByte w, (endByte,.ok w) ∈ f.returned → endByte ≤ f.pos ∨ f.pipe.ended = true := by
  have placed := Lib.Run.invariant Rounds (Placed content stream) stepPlaced (openPlaced stream size) rounds ok
  exact ⟨placed.pos,placed.content,placed.inside,placed.reached⟩

def pieces : List Step :=
  [.downloadMore 4 [.bytes 1,.bytes 2,.failed],.readahead,.downloadMore 3 [],.resume 0 [.bytes 1,.eof]]

theorem fourPieces : ∃ f, run (step [7,8,9,10,11]) (openConnection [1]) pieces = some f ∧
    f.pos = 5 ∧ f.pipe.content = [1] ++ [7,8,9,10] ∧
    ((83886084,.ok 1) ∈ f.returned ∧ f.pipe.ended = true) := by
  obtain ⟨f,ok,taken,pos,back⟩ : ∃ f, run (step [7,8,9,10,11]) (openConnection [1]) pieces = some f ∧
      f.pipe.taken = 4 ∧ f.pos = 5 ∧ (83886084,.ok 1) ∈ f.returned := ⟨_,rfl,by decide +kernel⟩
  obtain ⟨_,content,_,reached⟩ := piecesPlaced (by decide) (by decide +kernel) ok
  refine ⟨f,ok,pos,by rw [content,taken]; rfl,back,?_⟩
  exact (reached _ _ back).resolve_left (by rw [pos]; decide)

end F3.Client.Pieces
