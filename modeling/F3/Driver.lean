import F3.Lib.Posix
import F3.Lib.Arena

/-! The FUSE driver: its inode table, the two trees it keeps (the shared one and the
local ID tree) and the request handlers that change them. One request is one step; a
handler that aborts, or is given the pointer of an erased inode, has no result. -/
namespace F3.Driver
open Lib (Bytes Arena Cell Prog)
open Lib.Posix

inductive Side where
  | fs | id
  deriving DecidableEq, Repr

-- f3_is_new_id is called by a handler and again by the do_lookup of the same request.
inductive Caller where
  | handler | lookup
  deriving DecidableEq, Repr

inductive MarkCall where
  | openFd | setId | setServers | readLink | setPath
  deriving DecidableEq, Repr

/- The call sites, by the function or the request they belong to. -/
inductive Call where
  | lookupOpen | lookupStat | lookupOpenId | lookupMkdir | lookupCreate | lookupReopen | lookupStatId
  | isIdOpen (caller : Caller) | isIdGet (caller : Caller)
  | mark (side : Side) (call : MarkCall)
  | getOpen (attr : Bytes) | getAttr (attr : Bytes)
  | sizeOpen | sizeSet
  | socket | connect | spawn | request
  | mknod (side : Side) | mknodOpen (side : Side)
  | link (side : Side) | linkStat
  | rmdir (side : Side) | rename (side : Side) | unlink (side : Side)
  | create (side : Side)
  | openHandle
  | getattr | truncate | write
  | setxattr (side : Side) | removexattr (side : Side)
  | convertOpen (side : Side) | convertCopy (round : Nat) | convertTruncate
  deriving DecidableEq, Repr

abbrev SrcId := Ino × Dev

structure Inode where
  fd : Slot := .closed
  idFd : Slot := .closed
  src : SrcId := (0,0)
  generation : Nat := 0
  nopen : Nat := 0
  nlookup : Nat := 0
  isId : Bool := false
  needsDownload : Bool := false
  clientFd : Option Nat := none
  size : Nat := 0
  targetSize : Nat := 0
  deriving DecidableEq, Repr

-- INODE(i): the copy that the data of the file is read from and written to.
def Inode.side (i : Inode) : Side := if i.isId then .id else .fs
def Inode.slot (i : Inode) : Slot := if i.isId then i.idFd else i.fd

-- inode.fd > 0
def Inode.Live (i : Inode) : Prop := i.fd ≠ .closed ∧ i.fd ≠ .enoent
instance (i) : Decidable (Inode.Live i) := by unfold Inode.Live; infer_instance

inductive Ref where
  | root
  | node (addr : Nat)
  deriving DecidableEq, Repr

structure Handle where
  side : Side
  fd : Slot
  deriving DecidableEq, Repr

-- fuse_entry_param; an address of none is the inode number 0 of a negative entry.
structure EntryParam where
  ino : Option Nat
  generation : Nat
  attr : Stat
  deriving DecidableEq, Repr

inductive Reply where
  | err (e : Option Errno)
  | noreply
  | entry (e : Option EntryParam)
  | create (e : EntryParam) (fh : Handle)
  | opened (fh : Handle)
  | attr (st : Stat)
  | written (n : Nat)
  | entries (es : List (FileName × EntryParam))
  deriving DecidableEq, Repr

inductive Message where
  | download (path servers : Bytes)
  | done (fname : Bytes)
  deriving DecidableEq, Repr

structure Config where
  source : Bytes
  idroot : Bytes
  address : Bytes
  cached : Bool
  srcDev : Dev
  deriving DecidableEq, Repr

/- `pairs` is a history variable: the two files that one create opened and marked. -/
structure State where
  fs : Mount Call
  id : Mount Call
  inodes : Arena SrcId Inode
  root : Inode
  conf : Config
  replies : List Reply
  sent : List Message
  sockets : Nat
  pairs : List (Ino × Ino)

abbrev Handler (α : Type) := Prog (Env Call) State α

namespace State

def mount (d : State) : Side → Mount Call
  | .fs => d.fs
  | .id => d.id

def setMount (d : State) (side : Side) (m : Mount Call) : State :=
  match side with
  | .fs => {d with fs := m}
  | .id => {d with id := m}

def inode (d : State) : Ref → Option Inode
  | .root => some d.root
  | .node a => (d.inodes.atAddr a).map Cell.value

def setInode (d : State) (ref : Ref) (f : Inode → Inode) : State :=
  match ref with
  | .root => {d with root := f d.root}
  | .node a => {d with inodes := d.inodes.modify a f}

end State

def sys {α : Type} (side : Side) (p : Sys Call α) : Handler α :=
  Prog.zoom (fun d => d.mount side) (fun d m => d.setMount side m) p

-- get_inode aborts when the inode was never filled in.
def getInode (ref : Ref) : Handler Inode := fun _ d => match d.inode ref with
  | some i => if ref ≠ .root ∧ i.fd = .closed then none else some (i,d)
  | none => none

def setInode (ref : Ref) (f : Inode → Inode) : Handler Unit := Prog.modify (fun d => d.setInode ref f)

def reply (r : Reply) : Handler Unit := Prog.modify (fun d => {d with replies := d.replies ++ [r]})

def replyErr {α : Type} (r : Except Errno α) : Handler Unit := match r with
  | .ok _ => reply (.err none)
  | .error e => reply (.err (some e))

def send (m : Message) : Handler Unit := Prog.modify (fun d => {d with sent := d.sent ++ [m]})

def f3Attr (field : Bytes) : Bytes := [117,115,101,114,46,102,51,46] ++ field
def f3Id : Bytes := f3Attr [105,100]
def f3Servers : Bytes := f3Attr [115,101,114,118,101,114,115]
def f3Filepath : Bytes := f3Attr [102,105,108,101,112,97,116,104]
def f3Size : Bytes := f3Attr [115,105,122,101]

def strrchr (c : UInt8) : Bytes → Option Bytes
  | [] => none
  | b::rest => match strrchr c rest with
      | some tail => some tail
      | none => if b = c then some (b::rest) else none

def f3IsIdExt (name : Bytes) : Bool := match strrchr 46 name with
  | some ext => ext.tail = [105,100]
  | none => false

def f3GetFullFd (c : Call) (fd : Slot) (access : Access) : Sys Call (Except Errno Slot) :=
  reopen c fd ⟨access,false,false⟩

def andThen {m : Type → Type} [Monad m] {α β : Type} (p : m (Except Errno α))
    (f : α → m (Except Errno β)) : m (Except Errno β) := do
  match ← p with
  | .error e => pure (.error e)
  | .ok a => f a

/- The first two attributes go to the descriptor opened for them, the path to the one the
caller gave, which may be an O_PATH one. -/
def setMarks (side : Side) (address : Bytes) (newfd fd : Slot) (rootDirLen : Nat) :
    Sys Call (Except Errno Unit) :=
  andThen (fsetxattr (.mark side .setId) newfd f3Id [116,114,117,101,0]) fun _ =>
    andThen (fsetxattr (.mark side .setServers) newfd f3Servers address) fun _ =>
    andThen (readlinkFd (.mark side .readLink) newfd) fun fullPath =>
    fsetxattr (.mark side .setPath) fd f3Filepath (fullPath.drop rootDirLen)

def f3MarkAsId (side : Side) (address : Bytes) (fd : Slot) (rootDirLen : Nat) :
    Sys Call (Except Errno Unit) := do
  match ← f3GetFullFd (.mark side .openFd) fd .read with
  | .error _ => pure (.ok ())
  | .ok newfd => do
      let res ← setMarks side address newfd fd rootDirLen
      close newfd
      pure res

-- f3_is_id(fd) > 0, with its buffer of ten bytes.
def f3IsId (caller : Caller) (fd : Slot) : Sys Call Bool := do
  match ← f3GetFullFd (.isIdOpen caller) fd .read with
  | .error _ => pure false
  | .ok newfd => do
      let ret ← fgetxattr (.isIdGet caller) newfd f3Id 10
      close newfd
      pure (match ret with
        | .ok value => 0 < value.length
        | .error _ => false)

def f3IsNewId (caller : Caller) (parent : Ref) (name : FileName) : Handler Bool := do
  let inodeP ← getInode parent
  let marked ← sys .fs (f3IsId caller inodeP.fd)
  pure (marked || f3IsIdExt name.val)

def f3GetAttr (attr : Bytes) (size : Nat) (fd : Slot) : Sys Call Bytes := do
  match ← f3GetFullFd (.getOpen attr) fd .read with
  | .error _ => pure []
  | .ok newfd => do
      let ret ← fgetxattr (.getAttr attr) newfd attr size
      close newfd
      pure (match ret with
        | .ok value => value.takeWhile (· ≠ 0)
        | .error _ => [])

def f3GetServers (fd : Slot) : Sys Call Bytes := f3GetAttr f3Servers 100 fd
def f3GetFilepath (fd : Slot) : Sys Call Bytes := f3GetAttr f3Filepath 4096 fd

def digits (n : Nat) : Bytes := (Nat.toDigits 10 n).map (fun c => c.toNat.toUInt8)

def f3UpdateSizeXattr (fd : Slot) (size : Nat) : Sys Call Unit := do
  match ← f3GetFullFd .sizeOpen fd .read with
  | .error _ => pure ()
  | .ok newfd => do
      let _ ← fsetxattr .sizeSet newfd f3Size (digits size)
      close newfd

def isSpace (b : UInt8) : Bool := b = 32 ∨ (9 ≤ b ∧ b ≤ 13)
def isDigit (b : UInt8) : Bool := 48 ≤ b ∧ b ≤ 57

def decimal (b : Bytes) : Nat := (b.takeWhile isDigit).foldl (fun n d => 10 * n + (d.toNat - 48)) 0

-- strtol(b, NULL, 10): blanks, a sign, digits, and the ends of long where it saturates.
def strtol (b : Bytes) : Int := match b.dropWhile isSpace with
  | 45::rest => max (-(decimal rest : Int)) (-(2 ^ 63))
  | 43::rest => min (decimal rest : Int) (2 ^ 63 - 1)
  | rest => min (decimal rest : Int) (2 ^ 63 - 1)

def sizeT (n : Int) : Nat := (n % 2 ^ 64).toNat
def offT (n : Nat) : Int := if n < 2 ^ 63 then n else (n : Int) - 2 ^ 64

def f3GetSizeXattr (fd : Slot) : Sys Call Nat := do
  let sizeStr ← f3GetAttr f3Size 23 fd
  pure (sizeT (strtol sizeStr))

-- A socket that cannot be connected stays open, and nobody has its number.
def setupConn : Handler (Option Nat) := fun e d => match e.fault .socket,e.fault .connect with
  | some _,_ => some (none,d)
  | none,some _ => some (none,{d with sockets := d.sockets + 1})
  | none,none => some (some d.sockets,{d with sockets := d.sockets + 1})

-- fs.inodes[id]
def inodeAt (id : SrcId) : Handler Nat := fun _ d =>
  some ((d.inodes.enter id {}).2,{d with inodes := (d.inodes.enter id {}).1})

def slotOf : Except Errno Slot → Slot
  | .ok fd => fd
  | .error _ => .closed

/- The entry's copy in the ID tree, made when the first open found it missing. The flag
says that this was the file branch: a placeholder that was not there before. -/
def makeIdCopy (idParent : Slot) (name : FileName) (kind : Kind) :
    Except Errno Slot → Sys Call (Slot × Bool)
  | .ok idFd => pure (idFd,false)
  | .error .enoent =>
      if kind = .dir then do
        let _ ← makeAt .lookupMkdir idParent name .dir []
        let again ← openPath .lookupReopen idParent name
        pure (slotOf again,false)
      else do
        let made ← openCreate .lookupCreate idParent name ⟨.read,false,false⟩
        close (slotOf made)
        let again ← openPath .lookupReopen idParent name
        pure (slotOf again,true)
  | .error _ => pure (.closed,false)

def openIdCopy (idParent : Slot) (name : FileName) (kind : Kind) : Sys Call (Slot × Bool) := do
  let opened ← openPath .lookupOpenId idParent name
  makeIdCopy idParent name kind opened

def Inode.fill (i : Inode) (src : SrcId) (fd : Slot) : Inode :=
  {i with src := src, nlookup := i.nlookup + 1, fd := fd}

-- The ID copy of an inode that is being built: an ID file whose placeholder was made
-- just now has to be downloaded.
def attachCopy (idParent : Slot) (name : FileName) (kind : Kind) (addr : Nat) : Handler Unit := do
  let copy ← sys .id (openIdCopy idParent name kind)
  let inode ← getInode (.node addr)
  Prog.onlyIf (copy.2 = true ∧ inode.isId = true) (do
    let conn ← setupConn
    setInode (.node addr) (fun i => {i with needsDownload := true, clientFd := conn}))
  setInode (.node addr) (fun i => {i with idFd := copy.1})

/- The branch of do_lookup for an inode that is new, or recycled from an unlinked one:
only the fields that are assigned here change. -/
def buildInode (parent : Ref) (name : FileName) (addr : Nat) (newfd : Slot) (attr : Stat) :
    Handler Unit := do
  let dir ← getInode parent
  setInode (.node addr) (fun i => i.fill (attr.ino,attr.dev) newfd)
  let isNew ← f3IsNewId .lookup parent name
  Prog.onlyIf (isNew = true) (setInode (.node addr) (fun i => {i with isId := true}))
  attachCopy dir.idFd name attr.kind addr

def countLookup (addr : Nat) (newfd : Slot) : Handler Unit := do
  setInode (.node addr) (fun i => {i with nlookup := i.nlookup + 1})
  sys .fs (close newfd)

def enterInode (parent : Ref) (name : FileName) (addr : Nat) (newfd : Slot) (attr : Stat)
    (inode : Inode) : Handler Unit :=
  if inode.Live then countLookup addr newfd else buildInode parent name addr newfd attr

/- The last part: an ID inode answers with the attributes of its ID copy, whose inode
number and device replace the ones it is filed under. On an error `newfd` is closed,
whoever holds it by now. -/
def answerAttr (addr : Nat) (generation : Nat) (newfd : Slot) (attr : Stat) :
    Handler (Except Errno EntryParam) := do
  let inode ← getInode (.node addr)
  if inode.isId then
    match ← sys .id (fstat .lookupStatId inode.idFd) with
    | .error e => do
        sys .fs (close newfd)
        pure (.error e)
    | .ok st => do
        let xattrSize ← sys .fs (f3GetSizeXattr inode.fd)
        let size := if (st.size : Int) < offT xattrSize then xattrSize else st.size
        setInode (.node addr) (fun i => {i with src := (st.ino,st.dev)})
        pure (.ok ⟨some addr,generation,{st with size := size}⟩)
  else pure (.ok ⟨some addr,generation,attr⟩)

def doLookup (parent : Ref) (name : FileName) : Handler (Except Errno EntryParam) := do
  let dir ← getInode parent
  match ← sys .fs (openPath .lookupOpen dir.fd name) with
  | .error e => pure (.error e)
  | .ok newfd => do
      match ← sys .fs (fstat .lookupStat newfd) with
      | .error e => do
          sys .fs (close newfd)
          pure (.error e)
      | .ok attr => do
          let d ← Prog.get
          if attr.dev ≠ d.conf.srcDev then pure (.error .enotsup)
          else if attr.ino = 1 then pure (.error .eio)
          else do
            let addr ← inodeAt (attr.ino,attr.dev)
            let known ← Prog.get
            match known.inode (.node addr) with
            | none => Prog.abort
            | some inode => do
                enterInode parent name addr newfd attr inode
                answerAttr addr inode.generation newfd attr

end F3.Driver
