import F3.DriverRequests
import F3.FuseBuffer
import F3.Lib.PosixNames

/-! The two places where the driver hands data to the copy loop of libfuse: do_write_buf, and the
reply to a read where nothing is spliced. -/
namespace F3.Driver.Data
open Lib (Bytes)
open Lib.Posix hiding Flags
open Lib.Scatter
open Fuse (Place Buf Bufvec Flags World fuseBufCopy fuseBufSize sizeMax Sound Streamed)

-- FUSE_BUFVEC_INIT(size), with a descriptor and a position or with memory.
def oneBuf (place : Place) (pos size : Nat) : Bufvec := ⟨[⟨place,pos,size,false⟩],0,0⟩

def doWriteBuf (fd off : Nat) (inBuf : Bufvec) (flags : Flags) (w : World) :
    Option (Except Errno Nat × World) :=
  fuseBufCopy (oneBuf (.file fd) off (fuseBufSize inBuf)) inBuf flags w

/- fuse_send_data_iov_fallback for a file: the bytes that are sent. -/
def sendFallback (region fd off size : Nat) (w : World) : Option (Except Errno Bytes × World) :=
  match fuseBufCopy (oneBuf (.memory region) 0 size) (oneBuf (.file fd) off size) ⟨false,false⟩ w with
  | some (.ok res,w) => some (.ok ((w.store (.memory region)).take res),w)
  | some (.error e,w) => some (.error e,w)
  | none => none

/- The data of a write request: memory of the request buffer, however it is cut. -/
structure Request (v : Bufvec) (store : Place → Bytes) : Prop where
  start : v.idx = 0 ∧ v.off = 0
  memory : ∀ b ∈ v.bufs, ∃ region, b.place = .memory region
  inside : ∀ b ∈ v.bufs, b.pos + b.size ≤ (store b.place).length
  small : (v.bufs.map Buf.size).sum < sizeMax
  unused : store .scratch = []

theorem sizeSum {bufs : List Buf} {n : Nat} (small : n + (bufs.map Buf.size).sum < sizeMax) :
    bufs.foldl (fun size b => if b.size = sizeMax then sizeMax else (size + b.size) % 2 ^ 64) n =
      n + (bufs.map Buf.size).sum := by
  induction bufs generalizing n with
  | nil => rfl
  | cons b bufs ih =>
    simp only [List.map_cons,List.sum_cons] at small ⊢
    have step : (if b.size = sizeMax then sizeMax else (n + b.size) % 2 ^ 64) = n + b.size := by
      rw [if_neg (by omega)]
      exact Nat.mod_eq_of_lt (by simp only [sizeMax] at small; omega)
    rw [List.foldl_cons,step,ih (by omega)]
    omega

theorem requestRest {v : Bufvec} {store : Place → Bytes} (request : Request v store) :
    v.rest = v.bufs.map fun b => b.piece 0 := by
  obtain ⟨bufs,idx,off⟩ := v
  obtain ⟨rfl,rfl⟩ := request.start
  exact Fuse.restNext bufs 0

theorem requestSize {v : Bufvec} {store : Place → Bytes} (request : Request v store) :
    (gather store v.rest).length = fuseBufSize v ∧ available store v.rest = fuseBufSize v := by
  have sum := sizeSum (n := 0) (by simpa using request.small)
  have pieces : room v.rest = fuseBufSize v := by
    rw [fuseBufSize,sum,requestRest request,Nat.zero_add,room,List.map_map]
    rfl
  rw [← pieces]
  refine allAvailable store v.rest fun p mem => ?_
  rw [requestRest request] at mem
  obtain ⟨b,inV,rfl⟩ := List.mem_map.mp mem
  have fits := request.inside b inV
  simp only [slice,Buf.piece,List.length_take,List.length_drop]
  omega

theorem oneWell (place : Place) (pos size : Nat) : (oneBuf place pos size).Well := fun _ _ => Nat.zero_le _

theorem oneRest (place : Place) (pos size : Nat) : (oneBuf place pos size).rest = [⟨place,pos,size⟩] := rfl

theorem requestSound {v : Bufvec} {store : Place → Bytes} (request : Request v store) (fd off size : Nat) :
    Sound (oneBuf (.file fd) off size).bufs v.bufs store := by
  refine ⟨?_,?_,?_,fun b mem _ => request.inside b mem,request.unused⟩
  · intro d mem b inV
    obtain rfl := List.mem_singleton.mp mem
    obtain ⟨region,place⟩ := request.memory b inV
    simp [place]
  · intro d mem
    obtain rfl := List.mem_singleton.mp mem
    simp
  · intro b inV
    obtain ⟨region,place⟩ := request.memory b inV
    simp [place]

theorem scatterOne {store : Place → Bytes} (place : Place) (pos size : Nat) {data : Bytes} (fits : data.length ≤ size) :
    scatter [⟨place,pos,size⟩] data store = put store ⟨place,pos,size⟩ data := by
  rw [scatter,scatter,List.take_of_length_le fits]

theorem writeIsOneCall {m : Mount Call} {slot : Slot} {f : File} (opened : writable m slot = .ok f)
    {fd : Nat} (off : Nat) {inBuf : Bufvec} {flags : Flags} {w : World}
    (file : w.store (.file fd) = (m.vol.nodes f.entry.ino).content) (request : Request inBuf w.store)
    (free : flags.forceSplice = false) :
    ∃ r w' e m', doWriteBuf fd off inBuf flags w = some (r,w') ∧
      pwriteAt .write slot off (gather w.store inBuf.rest) e m = (r,m') ∧
      (f.access.appends = false → writeAt .write slot off (gather w.store inBuf.rest) e m = (r,m')) ∧
      (m'.vol.nodes f.entry.ino).content = w'.store (.file fd) ∧
      (∀ place, place ≠ .file fd → w'.store place = w.store place) ∧
      (w.outcomes = [] → r = .ok (gather w.store inBuf.rest).length) := by
  obtain ⟨size,rest⟩ := requestSize request
  have inWell : inBuf.Well := by
    intro b _
    rw [request.start.2]
    exact Nat.zero_le _
  obtain ⟨r,w',n,ok,streamed⟩ := Fuse.copyStreamed free (oneWell (.file fd) off (fuseBufSize inBuf)) inWell
    (requestSound request fd off _)
  have bytes := streamed.bytes
  have cut : ((gather w.store inBuf.rest).take n).length = n := List.length_take_of_le bytes
  have store := streamed.store
  rw [oneRest,scatterOne _ _ _ (by omega)] at store
  have whole : w.outcomes = [] → r = .ok (gather w.store inBuf.rest).length := by
    intro quiet
    obtain ⟨same,all⟩ := streamed.whole quiet
    rw [oneRest,rest] at all
    have full : n = fuseBufSize inBuf := by simpa [room] using all
    rw [same,full,size,Nat.zero_add]
  have others : ∀ place, place ≠ .file fd → w'.store place = w.store place := by
    intro place other
    rw [store]
    exact putElsewhere _ _ _ other
  have content : w'.store (.file fd) =
      (m.vol.nodes f.entry.ino).content.pwrite off ((gather w.store inBuf.rest).take n) := by
    rw [store,put,Function.update_self,file]
  have lands : f.access.appends = false → landing m slot off = off := by
    intro plain
    simp only [landing,(writableOk opened).1,plain,Bool.false_eq_true,if_false]
  rcases streamed.result with rfl | ⟨-,rfl,err,rfl⟩
  · have call : pwriteAt .write slot off (gather w.store inBuf.rest) ⟨fun _ => none,fun _ => 0,fun _ => n⟩ m =
        (.ok (0 + n),m.setContent f.entry.ino
          ((m.vol.nodes f.entry.ino).content.pwrite off ((gather w.store inBuf.rest).take n))) := by
      simp only [pwriteAt,syscall,opened,bind,Except.bind,Nat.min_eq_left bytes,Nat.zero_add]
    refine ⟨_,w',_,_,ok,call,fun plain => by rw [writeAt,lands plain,call],?_,others,whole⟩
    rw [content]
    simp [Mount.setContent,Volume.setNode]
  · refine ⟨_,w',⟨fun _ => some err,fun _ => 0,fun _ => 0⟩,m,ok,rfl,fun _ => rfl,?_,others,whole⟩
    rw [content,List.take_zero]
    simp [Bytes.pwrite]

def openMount : Mount Call where
  vol := emptyVolume 1 ⟨[115],okS⟩
  opened := [(0,⟨⟨5,.reg⟩,none,.readWrite⟩)]
  next := 1
  fresh := by simp
  stray := []

def cutRequest : World where
  store := fun place => if place = .memory 0 then [1,2,3,4,5] else []
  outcomes := [.ok 9,.ok 1]

theorem cutIsOneCall : ∃ r w' e m',
    doWriteBuf 3 7 ⟨[⟨.memory 0,0,2,false⟩,⟨.memory 0,2,3,false⟩],0,0⟩ ⟨true,false⟩ cutRequest = some (r,w') ∧
    pwriteAt .write (.fd 0) 7 [1,2,3,4,5] e openMount = (r,m') ∧
    writeAt .write (.fd 0) 7 [1,2,3,4,5] e openMount = (r,m') ∧
    (m'.vol.nodes 5).content = w'.store (.file 3) ∧
    (∀ place, place ≠ .file 3 → w'.store place = cutRequest.store place) ∧
    (cutRequest.outcomes = [] → r = .ok 5) := by
  have opened : writable openMount (.fd 0) = .ok ⟨⟨5,.reg⟩,none,.readWrite⟩ := rfl
  have request : Request ⟨[⟨.memory 0,0,2,false⟩,⟨.memory 0,2,3,false⟩],0,0⟩ cutRequest.store := by
    refine ⟨⟨rfl,rfl⟩,by simp,by decide,by decide,rfl⟩
  obtain ⟨r,w',e,m',ran,call,lands,rest⟩ := @writeIsOneCall openMount (.fd 0) _ opened 3 7 _ ⟨true,false⟩
    cutRequest rfl request rfl
  exact ⟨r,w',e,m',ran,call,lands rfl,rest⟩

theorem replyIsPrefix (region fd off size : Nat) {w : World} (unused : w.store .scratch = []) :
    ∃ r w', sendFallback region fd off size w = some (r,w') ∧
      (∀ bytes, r = .ok bytes → bytes <+: ((w.store (.file fd)).drop off).take size) ∧
      (w.outcomes = [] → r = .ok (((w.store (.file fd)).drop off).take size)) := by
  have sound : Sound (oneBuf (.memory region) 0 size).bufs (oneBuf (.file fd) off size).bufs w.store := by
    refine ⟨?_,?_,?_,?_,unused⟩ <;> simp [oneBuf,Buf.isFd]
  have free : (⟨false,false⟩ : Flags).forceSplice = false := rfl
  obtain ⟨r,w',n,ok,streamed⟩ := Fuse.copyStreamed free (oneWell (.memory region) 0 size)
    (oneWell (.file fd) off size) sound
  have source : gather w.store (oneBuf (.file fd) off size).rest = ((w.store (.file fd)).drop off).take size := by
    simp [oneRest,gather,slice]
  have bytes := streamed.bytes
  have fits := streamed.fits
  have store := streamed.store
  rw [oneRest,room] at fits
  rw [source] at bytes store
  have cut : ((((w.store (.file fd)).drop off).take size).take n).length = n := List.length_take_of_le bytes
  rw [oneRest,scatterOne _ _ _ (by simp at fits; omega)] at store
  have sent : (w'.store (.memory region)).take n = (((w.store (.file fd)).drop off).take size).take n := by
    have own := sliceOwn w.store ⟨.memory region,0,size⟩ ((((w.store (.file fd)).drop off).take size).take n)
    rw [cut,← store] at own
    exact own
  rcases streamed.result with same | ⟨-,-,err,same⟩
  · rw [Nat.zero_add] at same
    subst same
    refine ⟨.ok ((w'.store (.memory region)).take n),w',by rw [sendFallback,ok],?_,fun quiet => ?_⟩
    · intro bytes isBytes
      cases Except.ok.inj isBytes
      rw [sent]
      exact List.take_prefix _ _
    · have all := (streamed.whole quiet).2
      have size := sliceSize w.store ⟨.file fd,off,size⟩
      rw [oneRest,oneRest,oneAvailable,room,List.map_singleton,List.sum_singleton,Nat.min_eq_left size] at all
      rw [sent,all]
      exact congrArg Except.ok List.take_length
  · subst same
    refine ⟨.error err,w',by rw [sendFallback,ok],fun _ sent => (by cases sent),fun quiet => ?_⟩
    cases (streamed.whole quiet).1

end F3.Driver.Data
