import F3.DriverRequests

/-! The requests that read, list and sync, and setattr with all it may set. Their calls
have sites of their own; what is not the model's to decide (a failure, the growth of a
file while it is downloaded, the list of a file's attributes) is given from outside. -/
namespace F3.Driver.Service
open Lib (Bytes Prog)
open Lib.Posix

inductive Site where
  | newHandle | openDir | fdopendir
  | newBuffer | readdir
  | chmod | chown | utimens
  | readlink | fsyncdir | flush | fsync | readData | statfs | fallocate | flock
  | newValue | getxattr | listxattr
  deriving DecidableEq, Repr

/- `observed` is st_size of the ID copy behind each fstatat of one read (what the buffer
held before, where the call fails), `attrs` what listxattr finds. -/
structure Outside where
  calls : Env Call
  fault : Site → Option Errno
  observed : Nat → Nat
  attrs : Bytes

structure DirHandle where
  side : Side
  fd : Slot
  offset : Nat
  deriving DecidableEq, Repr

inductive Answer where
  | readlink (target : Bytes)
  | opendir (fh : DirHandle)
  | data (bytes : Bytes)
  | buf (value : Bytes)
  | xattr (size : Nat)
  | statfs
  deriving DecidableEq, Repr

/- The driver while it serves one request: replies of the kinds the other requests send
are with them, `slept` counts the half seconds a read has waited. -/
structure Desk where
  driver : State
  answers : List Answer
  slept : Nat

def Desk.count (d : Desk) : Nat := d.driver.replies.length + d.answers.length

abbrev Serve (α : Type) := Prog Outside Desk α

variable {α : Type}

def core (p : Handler α) : Serve α := fun out d =>
  (p out.calls d.driver).map (fun r => (r.1,{d with driver := r.2}))

def answer (a : Answer) : Serve Unit := Prog.modify (fun d => {d with answers := d.answers ++ [a]})

def fail (e : Errno) : Serve Unit := core (reply (.err (some e)))

def call (s : Site) (side : Side) (f : Mount Call → Except Errno (α × Mount Call)) :
    Serve (Except Errno α) := fun out d => match out.fault s with
  | some err => some (.error err,d)
  | none => match f (d.driver.mount side) with
      | .ok (a,m) => some (.ok a,{d with driver := d.driver.setMount side m})
      | .error err => some (.error err,d)

def attempt (s : Site) : Serve (Except Errno Unit) := call s .fs fun m => .ok ((),m)

def pathMax : Nat := 4096

def sfsReadlink (ino : Ref) : Serve Unit := do
  let inode ← core (getInode ino)
  match ← call .readlink inode.side (fun m => m.readlink inode.slot (pathMax + 1)) with
  | .error e => fail e
  | .ok target =>
      if target.length = pathMax + 1 then fail .enametoolong else answer (.readlink target)

def sfsOpendir (ino : Ref) : Serve Unit := do
  let inode ← core (getInode ino)
  match ← attempt .newHandle with
  | .error _ => fail .enomem
  | .ok _ => do
      match ← andThen (call .openDir inode.side (fun m => m.openDot inode.slot)) (fun fd =>
          andThen (attempt .fdopendir) fun _ => pure (.ok fd)) with
      | .error e => fail e
      | .ok fd => answer (.opendir ⟨inode.side,fd,0⟩)

/- What readdir(3) returns: '.' or '..', which are skipped, or an entry with its d_ino
and d_type. -/
inductive Dirent where
  | dots
  | entry (x : DirEntry) (ino : Ino) (kind : Kind)

-- An error is only signalled when nothing has been stored yet.
def replyCollected (err : Option Errno) (sofar : List (FileName × EntryParam)) : Handler Unit :=
  match err with
  | some e => reply (if sofar = [] then .err (some e) else .entries sofar.reverse)
  | none => reply (.entries sofar.reverse)

def readdirLoop (ino : Ref) (plus : Bool) :
    List Dirent → List (FileName × EntryParam) → Serve Unit
  | [],sofar => do
      match ← attempt .readdir with
      | .error e => core (replyCollected (some e) sofar)
      | .ok _ => core (replyCollected none sofar)
  | .dots::rest,sofar => readdirLoop ino plus rest sofar
  | .entry x attrIno kind::rest,sofar =>
      if plus then do
        match ← core (Prog.within x.env (doLookup ino x.name)) with
        | .error e => core (replyCollected (some e) sofar)
        | .ok e =>
            if x.fits then readdirLoop ino plus rest ((x.name,e)::sofar)
            else do
              core (forgetEntry e)
              core (replyCollected none sofar)
      else if x.fits then
        readdirLoop ino plus rest ((x.name,⟨none,0,⟨attrIno,0,kind,0,0⟩⟩)::sofar)
      else core (replyCollected none sofar)

def doReaddir (ino : Ref) (plus : Bool) (stream : List Dirent) : Serve Unit := do
  let _ ← core (getInode ino)
  match ← attempt .newBuffer with
  | .error _ => fail .enomem
  | .ok _ => readdirLoop ino plus stream []

def sfsReaddir (ino : Ref) (stream : List Dirent) : Serve Unit := doReaddir ino false stream
def sfsReaddirplus (ino : Ref) (stream : List Dirent) : Serve Unit := doReaddir ino true stream

def sfsReleasedir (dh : DirHandle) : Serve Unit := do
  core (sys dh.side (close dh.fd))
  core (reply (.err none))

def onHandle (s : Site) (side : Side) (fd : Slot) : Serve Unit := do
  let res ← call s side (fun m => m.known fd)
  core (replyErr res)

def sfsFsyncdir (dh : DirHandle) : Serve Unit := onHandle .fsyncdir dh.side dh.fd
def sfsFlush (fh : Handle) : Serve Unit := onHandle .flush fh.side fh.fd
def sfsFsync (fh : Handle) : Serve Unit := onHandle .fsync fh.side fh.fd
def sfsFlock (fh : Handle) : Serve Unit := onHandle .flock fh.side fh.fd

def sfsStatfs (ino : Ref) : Serve Unit := do
  let inode ← core (getInode ino)
  match ← call .statfs .fs (fun m => m.known inode.fd) with
  | .error e => fail e
  | .ok _ => answer .statfs

def sfsFallocate (mode offset length : Nat) (fh : Handle) : Serve Unit := do
  if mode ≠ 0 then fail .enotsup
  else do
    let err ← call .fallocate fh.side (fun m => m.fallocate fh.fd offset length)
    core (replyErr err)

/- The rounds of the wait in sfs_read, from the one whose fstatat is `round`. -/
def waitLoop (observed : Nat → Nat) (upto targetSize : Nat) : Nat → Nat → Nat
  | 0,_ => 0
  | timeout+1,round =>
      if observed round < upto ∧ upto < targetSize then
        waitLoop observed upto targetSize timeout (round + 1) + 1
      else 0

def doRead (size off : Nat) (fh : Handle) : Serve Unit := do
  match ← call .readData fh.side (fun m => m.pread fh.fd off size) with
  | .error e => fail e
  | .ok bytes => answer (.data bytes)

def sfsRead (ino : Ref) (size off : Nat) (fh : Handle) : Serve Unit := do
  let inode ← core (getInode ino)
  (fun out d => some ((),{d with
    slept := d.slept + waitLoop out.observed (off + size) inode.targetSize 24 0}))
  doRead size off fh

/- getxattr and listxattr: with a size the value itself, if it fits and is not empty, and
without one the size it needs. -/
def replyValue (s : Site) (side : Side) (read : Mount Call → Except Errno (Bytes × Mount Call))
    (size : Nat) : Serve Unit := do
  if size ≠ 0 then do
    match ← attempt .newValue with
    | .error _ => fail .enomem
    | .ok _ => do
        match ← call s side (fun m => do
            let (value,m) ← read m
            if size < value.length then .error .erange else .ok (value,m)) with
        | .error e => fail e
        | .ok value => if value = [] then core (reply (.err none)) else answer (.buf value)
  else do
    match ← call s side read with
    | .error e => fail e
    | .ok value => answer (.xattr value.length)

def sfsGetxattr (ino : Ref) (name : Bytes) (size : Nat) : Serve Unit := do
  let inode ← core (getInode ino)
  replyValue .getxattr inode.side (fun m => m.getxattr inode.slot name) size

def sfsListxattr (ino : Ref) (size : Nat) : Serve Unit := do
  let inode ← core (getInode ino)
  fun out => replyValue .listxattr inode.side (fun m => do
    let _ ← attrFile m inode.slot
    .ok (out.attrs,m)) size out

-- What a setattr request asks for; the mode, the owner and the times are not kept.
structure SetAttr where
  mode : Bool
  owner : Bool
  size : Option Nat
  times : Bool
  deriving DecidableEq, Repr

def onlyOnce (c : Bool) (p : Serve (Except Errno Unit)) : Serve (Except Errno Unit) :=
  if c then p else pure (.ok ())

def doSetattr (ino : Ref) (valid : SetAttr) (fi : Option Handle) : Serve Unit := do
  let inode ← core (getInode ino)
  let res ← andThen (onlyOnce valid.mode (attempt .chmod)) fun _ =>
    andThen (onlyOnce valid.owner (attempt .chown)) fun _ =>
    andThen (match valid.size with
      | some size => core (truncateCopy inode size fi)
      | none => pure (.ok ())) fun _ =>
    onlyOnce valid.times (attempt .utimens)
  match res with
  | .error e => fail e
  | .ok _ => core (sfsGetattr ino)

inductive Op where
  | request (req : Req)
  | setattr (ino : Ref) (valid : SetAttr) (fi : Option Handle)
  | readlink (ino : Ref)
  | opendir (ino : Ref)
  | readdir (ino : Ref) (stream : List Dirent)
  | readdirplus (ino : Ref) (stream : List Dirent)
  | releasedir (dh : DirHandle)
  | fsyncdir (dh : DirHandle)
  | flush (fh : Handle)
  | fsync (fh : Handle)
  | read (ino : Ref) (size off : Nat) (fh : Handle)
  | statfs (ino : Ref)
  | fallocate (mode offset length : Nat) (fh : Handle)
  | flock (fh : Handle)
  | getxattr (ino : Ref) (name : Bytes) (size : Nat)
  | listxattr (ino : Ref) (size : Nat)

def serve : Op → Serve Unit
  | .request req => core (handle req)
  | .setattr ino valid fi => doSetattr ino valid fi
  | .readlink ino => sfsReadlink ino
  | .opendir ino => sfsOpendir ino
  | .readdir ino stream => sfsReaddir ino stream
  | .readdirplus ino stream => sfsReaddirplus ino stream
  | .releasedir dh => sfsReleasedir dh
  | .fsyncdir dh => sfsFsyncdir dh
  | .flush fh => sfsFlush fh
  | .fsync fh => sfsFsync fh
  | .read ino size off fh => sfsRead ino size off fh
  | .statfs ino => sfsStatfs ino
  | .fallocate mode offset length fh => sfsFallocate mode offset length fh
  | .flock fh => sfsFlock fh
  | .getxattr ino name size => sfsGetxattr ino name size
  | .listxattr ino size => sfsListxattr ino size

theorem coreBind {β : Type} (p : Handler α) (f : α → Handler β) :
    core (p >>= f) = (core p >>= fun a => core (f a)) := by
  funext out d
  simp only [core,bind]
  cases p out.calls d.driver <;> rfl

theorem skipFirst (p : Serve (Except Errno Unit)) (f : Unit → Serve (Except Errno Unit)) :
    andThen (onlyOnce false p) f = f () := rfl

theorem skipLast (p q : Serve (Except Errno Unit)) : andThen p (fun _ => onlyOnce false q) = p := by
  funext out d
  simp only [andThen,onlyOnce,bind,pure]
  cases p out d with
  | none => rfl
  | some r =>
    obtain ⟨r,t⟩ := r
    cases r <;> rfl

theorem setattrSize (ino : Ref) (size : Nat) (fi : Option Handle) :
    doSetattr ino ⟨false,false,some size,false⟩ fi = core (sfsSetattr ino size fi) := by
  unfold doSetattr sfsSetattr
  simp only [skipFirst,skipLast,coreBind]
  congr 1
  funext inode
  congr 1
  funext r
  cases r <;> rfl

theorem readdirStream {out : Outside} (ends : out.fault .readdir = none) (ino : Ref)
    (stream : List DirEntry) (sofar : List (FileName × EntryParam)) (d : Desk) :
    readdirLoop ino true (stream.map (fun x => .entry x 0 .reg)) sofar out d =
      core (Driver.readdirLoop ino stream sofar) out d := by
  induction stream generalizing sofar d with
  | nil =>
    have ended : attempt .readdir out d = some (.ok (),d) := by
      simp [attempt,call,ends,State.setMount,State.mount]
    simp only [List.map_nil,readdirLoop]
    rw [Prog.bindEq ended]
    rfl
  | cons x rest ih =>
    simp only [List.map_cons,readdirLoop,Driver.readdirLoop,coreBind,if_true]
    refine Prog.bindCongr fun r t => ?_
    cases r with
    | error err => rfl
    | ok e =>
      simp only
      split
      · exact ih _ t
      · exact (congrFun (congrFun (coreBind _ _) out) t).symm

theorem readdirplusStream {out : Outside} (memory : out.fault .newBuffer = none)
    (ends : out.fault .readdir = none) (ino : Ref) (stream : List DirEntry) (d : Desk) :
    sfsReaddirplus ino (stream.map (fun x => .entry x 0 .reg)) out d =
      core (Driver.sfsReaddirplus ino stream) out d := by
  unfold sfsReaddirplus doReaddir Driver.sfsReaddirplus
  rw [coreBind]
  refine Prog.bindCongr fun _ t => ?_
  have room : attempt .newBuffer out t = some (.ok (),t) := by
    simp [attempt,call,memory,State.setMount,State.mount]
  rw [Prog.bindEq room]
  exact readdirStream ends ino stream [] t

def opened (d : State) : Desk := ⟨{d with replies := []},[],0⟩

end F3.Driver.Service
