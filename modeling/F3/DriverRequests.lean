import F3.Driver
import F3.Lib.Run

/-! The request handlers of the driver, and its runs: any sequence of requests, each
with whatever its system calls do, and restarts of the process. -/
namespace F3.Driver
open Lib (Bytes Arena Cell Prog Tree)
open Lib.Posix

def sfsLookup (parent : Ref) (name : FileName) : Handler Unit := do
  match ← doLookup parent name with
  | .error .enoent => reply (.entry none)
  | .error e => reply (.err (some e))
  | .ok e => reply (.entry (some e))

def Inode.copy (i : Inode) : Side → Slot
  | .fs => i.fd
  | .id => i.idFd

def Config.rootDir (conf : Config) : Side → Bytes
  | .fs => conf.source
  | .id => conf.idroot

-- mkdir marks both copies through O_PATH descriptors.
def markDir (side : Side) (inodeP : Inode) (name : FileName) : Handler Unit := do
  let d ← Prog.get
  let fd ← sys side (openPath (.mknodOpen side) (inodeP.copy side) name)
  let _ ← sys side (f3MarkAsId side d.conf.address (slotOf fd) (d.conf.rootDir side).length)
  sys side (close (slotOf fd))

-- The copy in the ID tree: only directories and symbolic links get one here.
def mknodId (parent : Ref) (inodeP : Inode) (name : FileName) (kind : Kind) (link : Bytes) :
    Handler (Except Errno Unit) :=
  match kind with
  | .dir => andThen (sys .id (makeAt (.mknod .id) inodeP.idFd name .dir [])) fun _ => do
      let isNew ← f3IsNewId .handler parent name
      Prog.onlyIf (isNew = true) (do
        markDir .fs inodeP name
        markDir .id inodeP name)
      pure (.ok ())
  | .lnk => sys .id (makeAt (.mknod .id) inodeP.idFd name .lnk link)
  | _ => pure (.ok ())

def mknodSymlink (parent : Ref) (name : FileName) (kind : Kind) (link : Bytes) : Handler Unit := do
  let inodeP ← getInode parent
  let made ← andThen (sys .fs (makeAt (.mknod .fs) inodeP.fd name kind link)) fun _ =>
    andThen (mknodId parent inodeP name kind link) fun _ => doLookup parent name
  match made with
  | .error e => reply (.err (some e))
  | .ok e => reply (.entry (some e))

def sfsLink (ino parent : Ref) (name : FileName) : Handler Unit := do
  let inode ← getInode ino
  let inodeP ← getInode parent
  let made ← andThen (sys .fs (linkAt (.link .fs) inode.fd inodeP.fd name)) fun _ =>
    andThen (sys .id (linkAt (.link .id) inode.idFd inodeP.idFd name)) fun _ =>
    sys inode.side (fstat .linkStat inode.slot)
  match made with
  | .error e => reply (.err (some e))
  | .ok attr => do
      setInode ino (fun i => {i with nlookup := i.nlookup + 1})
      reply (.entry (some ⟨match ino with
        | .root => none
        | .node addr => some addr,0,attr⟩))

def chooseCopy (parent : Ref) (name : FileName) (fd idFd : Slot) : Handler Handle := do
  if ← f3IsNewId .handler parent name then do
    let d ← Prog.get
    let _ ← sys .fs (f3MarkAsId .fs d.conf.address fd d.conf.source.length)
    let _ ← sys .id (f3MarkAsId .id d.conf.address idFd d.conf.idroot.length)
    Prog.modify (fun d => {d with pairs := (match d.fs.file fd,d.id.file idFd with
      | some f,some g => [(f.entry.ino,g.entry.ino)]
      | _,_ => []) ++ d.pairs})
    sys .fs (close fd)
    pure ⟨.id,idFd⟩
  else pure ⟨.fs,fd⟩

def replyCreate (e : EntryParam) (fh : Handle) : Handler Unit := match e.ino with
  | none => Prog.abort
  | some addr => do
      let _ ← getInode (.node addr)
      setInode (.node addr) (fun i => {i with nopen := i.nopen + 1})
      reply (.create e fh)

def sfsCreate (parent : Ref) (name : FileName) (flags : Flags) : Handler Unit := do
  let inodeP ← getInode parent
  match ← sys .fs (openCreate (.create .fs) inodeP.fd name flags) with
  | .error e => reply (.err (some e))
  | .ok fd => do
      match ← sys .id (openCreate (.create .id) inodeP.idFd name flags) with
      | .error e => reply (.err (some e))
      | .ok idFd => do
          let fh ← chooseCopy parent name fd idFd
          match ← doLookup parent name with
          | .error e => reply (.err (some e))
          | .ok e => replyCreate e fh

def replyFirst (r : Except Errno Unit) : Handler Unit := match r with
  | .ok _ => pure ()
  | .error e => reply (.err (some e))

def sfsRmdir (parent : Ref) (name : FileName) : Handler Unit := do
  let inodeP ← getInode parent
  let first ← sys .fs (unlinkAt (.rmdir .fs) inodeP.fd name true)
  replyFirst first
  let second ← sys .id (unlinkAt (.rmdir .id) inodeP.idFd name true)
  replyErr second

-- `flags` stands for a request with any rename flag set.
def sfsRename (parent : Ref) (name : FileName) (newparent : Ref) (newname : FileName)
    (flags : Bool) : Handler Unit := do
  let inodeP ← getInode parent
  let inodeNp ← getInode newparent
  if flags then reply (.err (some .einval))
  else do
    let first ← sys .fs (renameAt (.rename .fs) inodeP.fd name inodeNp.fd newname)
    replyFirst first
    let second ← sys .id (renameAt (.rename .id) inodeP.idFd name inodeNp.idFd newname)
    replyErr second

-- Without caching the last unlink first releases the inode's descriptors.
def releaseUnlinked (e : EntryParam) : Handler Unit :=
  match e.ino with
  | none => Prog.abort
  | some addr => Prog.onlyIf (e.attr.nlink = 1) (do
      let inode ← getInode (.node addr)
      Prog.onlyIf (inode.Live ∧ inode.nopen = 0) (do
        sys .fs (close inode.fd)
        sys .id (close inode.idFd)
        setInode (.node addr) (fun i =>
          {i with fd := .enoent, idFd := .enoent, generation := i.generation + 1})))

def unlinkBoth (inodeP : Inode) (name : FileName) : Handler Unit := do
  let first ← sys .fs (unlinkAt (.unlink .fs) inodeP.fd name false)
  replyFirst first
  let second ← sys .id (unlinkAt (.unlink .id) inodeP.idFd name false)
  replyFirst second
  reply (.err none)

def sfsUnlink (parent : Ref) (name : FileName) : Handler Unit := do
  let inodeP ← getInode parent
  let d ← Prog.get
  if d.conf.cached then unlinkBoth inodeP name
  else do
    match ← doLookup parent name with
    | .error e => reply (.err (some e))
    | .ok e => do
        releaseUnlinked e
        unlinkBoth inodeP name

-- fs.inodes.erase(key); the destructor closes fd and nothing else.
def eraseInode (key : SrcId) : Handler Unit := do
  let d ← Prog.get
  match d.inodes.atKey key with
  | none => pure ()
  | some c => do
      sys .fs (close c.value.fd)
      Prog.modify (fun d => {d with inodes := d.inodes.erase key})

def forgetOne (ino : Ref) (n : Nat) : Handler Unit := do
  let inode ← getInode ino
  if inode.nlookup < n then Prog.abort
  else do
    setInode ino (fun i => {i with nlookup := i.nlookup - n})
    Prog.onlyIf (inode.nlookup - n = 0) (eraseInode inode.src)

def sfsForget (ino : Ref) (n : Nat) : Handler Unit := do
  forgetOne ino n
  reply .noreply

def forgetAll : List (Ref × Nat) → Handler Unit
  | [] => pure ()
  | (ino,n)::rest => do
      forgetOne ino n
      forgetAll rest

def sfsForgetMulti (forgets : List (Ref × Nat)) : Handler Unit := do
  forgetAll forgets
  reply .noreply

/- An entry the directory stream returns to readdirplus: its name, whether the reply
buffer still has room for it, and what the calls of its lookup do. -/
structure DirEntry where
  name : FileName
  fits : Bool
  env : Env Call

def forgetEntry (e : EntryParam) : Handler Unit := match e.ino with
  | none => Prog.abort
  | some addr => forgetOne (.node addr) 1

def readdirLoop (ino : Ref) : List DirEntry → List (FileName × EntryParam) → Handler Unit
  | [],sofar => reply (.entries sofar.reverse)
  | x::rest,sofar => do
      match ← Prog.within x.env (doLookup ino x.name) with
      | .error e => reply (if sofar = [] then .err (some e) else .entries sofar.reverse)
      | .ok e =>
          if x.fits then readdirLoop ino rest ((x.name,e)::sofar)
          else do
            forgetEntry e
            reply (.entries sofar.reverse)

def sfsReaddirplus (ino : Ref) (stream : List DirEntry) : Handler Unit := do
  let _ ← getInode ino
  readdirLoop ino stream []

-- With writeback caching a write-only handle is opened for reading too, and none for appending.
def openFlags (cached : Bool) (flags : Flags) : Flags :=
  if cached ∧ flags.access.writes then {flags with access := .readWrite} else flags

-- The download thread: without a connection, or when its write fails, nothing is asked for.
def requestFile (clientFd : Option Nat) (path servers : Bytes) : Handler Unit := fun e d =>
  if clientFd ≠ none ∧ e.fault .spawn = none ∧ e.fault .request = none then
    send (.download path servers) e d
  else some ((),d)

theorem requestKeeps {R : State → State → Prop} [Std.Refl R] (sends : ∀ m, Prog.Keeps R (send m))
    (clientFd : Option Nat) (path servers : Bytes) : Prog.Keeps R (requestFile clientFd path servers) := by
  intro e d a d' ok
  unfold requestFile at ok
  split at ok
  · exact sends _ e d a d' ok
  · cases Option.some.inj ok
    exact refl_of R d

def startDownload (ino : Ref) (inode : Inode) : Handler Unit := do
  let relPath ← sys .fs (f3GetFilepath inode.fd)
  let servers ← sys .fs (f3GetServers inode.fd)
  requestFile inode.clientFd relPath servers
  let target ← sys .fs (f3GetSizeXattr inode.fd)
  setInode ino (fun i => {i with targetSize := target})

def sfsOpen (ino : Ref) (flags : Flags) : Handler Unit := do
  let inode ← getInode ino
  let d ← Prog.get
  Prog.onlyIf (inode.needsDownload = true) (startDownload ino inode)
  match ← sys inode.side (reopen .openHandle inode.slot (openFlags d.conf.cached flags)) with
  | .error e => reply (.err (some e))
  | .ok fd => do
      setInode ino (fun i => {i with nopen := i.nopen + 1})
      reply (.opened ⟨inode.side,fd⟩)

-- F_GETFL of a bad descriptor is -1, which has every bit set.
def mayWrite (m : Mount Call) (fd : Slot) : Bool := match m.file fd with
  | some f => f.access.writes
  | none => true

def sfsRelease (ino : Ref) (fh : Handle) : Handler Unit := do
  let inode ← getInode ino
  let d ← Prog.get
  Prog.onlyIf (mayWrite (d.mount fh.side) fh.fd = true)
    (sys .fs (f3UpdateSizeXattr inode.fd inode.size))
  Prog.onlyIf (inode.needsDownload = false) (do
    let relPath ← sys .fs (f3GetFilepath inode.fd)
    send (.done relPath))
  setInode ino (fun i => {i with nopen := (i.nopen + (2 ^ 64 - 1)) % 2 ^ 64})
  sys fh.side (close fh.fd)
  reply (.err none)

def sfsWriteBuf (ino : Ref) (fh : Handle) (off : Nat) (data : Bytes) : Handler Unit := do
  let inode ← getInode ino
  match ← sys fh.side (writeAt .write fh.fd off data) with
  | .error e => reply (.err (some e))
  | .ok res => do
      Prog.onlyIf (inode.isId = true ∧ inode.size < off + res)
        (setInode ino (fun i => {i with size := off + res}))
      reply (.written res)

def sfsGetattr (ino : Ref) : Handler Unit := do
  let inode ← getInode ino
  match ← sys inode.side (fstat .getattr inode.slot) with
  | .error e => reply (.err (some e))
  | .ok st =>
      let size := if inode.isId ∧ (st.size : Int) < offT inode.targetSize then inode.targetSize
        else st.size
      reply (.attr {st with size := size})

def truncateCopy (inode : Inode) (size : Nat) : Option Handle → Handler (Except Errno Unit)
  | some fh => sys fh.side (ftruncate .truncate fh.fd size)
  | none => sys inode.side (truncateAt .truncate inode.slot size)

def sfsSetattr (ino : Ref) (size : Nat) (fi : Option Handle) : Handler Unit := do
  let inode ← getInode ino
  match ← truncateCopy inode size fi with
  | .error e => reply (.err (some e))
  | .ok _ => sfsGetattr ino

def sfsSetxattr (ino : Ref) (name value : Bytes) (flag : SetFlag) : Handler Unit := do
  let inode ← getInode ino
  let first ← sys .fs (setxattrAt (.setxattr .fs) inode.fd name value flag)
  replyFirst first
  let second ← sys .id (setxattrAt (.setxattr .id) inode.idFd name value flag)
  replyErr second

/- The sendfile loop: each round moves between one and 4096 bytes from `offset` of the
ID copy to the same place of the FS copy, and the loop ends at the end of the ID copy. -/
def sendfileLoop (fsFd idFd : Slot) : Nat → Nat → Nat → Handler (Except Errno Unit)
  | 0,_,_ => pure (.ok ())
  | fuel+1,round,offset => fun e d => match e.fault (.convertCopy round),d.fs.file fsFd,d.id.file idFd with
      | some err,_,_ => some (.error err,d)
      | none,some f,some g =>
          let rest := (d.id.vol.nodes g.entry.ino).content.drop offset
          let n := min (min (e.count (.convertCopy round)) 4095 + 1) rest.length
          if n = 0 then some (.ok (),d)
          else
            let content := (d.fs.vol.nodes f.entry.ino).content
            sendfileLoop fsFd idFd fuel (round + 1) (offset + n) e
              {d with fs := d.fs.setContent f.entry.ino (content.pwrite offset (rest.take n))}
      | none,_,_ => some (.error .ebadf,d)

def idLength (d : State) (idFd : Slot) : Nat := match d.id.file idFd with
  | some g => (d.id.vol.nodes g.entry.ino).content.length
  | none => 0

-- What follows the loop: an ID copy that was copied whole is emptied, and the inode is
-- no ID inode any more.
def emptyIdCopy (ino : Ref) (idFd : Slot) : Except Errno Unit → Handler (Option Errno)
  | .error e => pure (some e)
  | .ok _ => do
      let cut ← sys .id (ftruncate .convertTruncate idFd 0)
      setInode ino (fun i => {i with isId := false})
      pure (match cut with
        | .error e => some e
        | .ok _ => none)

def f3MakeIdFs (ino : Ref) : Handler (Option Errno) := do
  let inode ← getInode ino
  let fsFd ← sys .fs (f3GetFullFd (.convertOpen .fs) inode.fd .readWrite)
  let idFd ← sys .id (f3GetFullFd (.convertOpen .id) inode.idFd .readWrite)
  let d ← Prog.get
  let copied ← sendfileLoop (slotOf fsFd) (slotOf idFd) (idLength d (slotOf idFd) + 1) 0 0
  let saverr ← emptyIdCopy ino (slotOf idFd) copied
  sys .fs (close (slotOf fsFd))
  sys .id (close (slotOf idFd))
  pure saverr

def convertUnmarked (ino : Ref) (name : Bytes) : Handler (Option Errno) :=
  if name = f3Id then f3MakeIdFs ino else pure none

def sfsRemovexattr (ino : Ref) (name : Bytes) : Handler Unit := do
  let inode ← getInode ino
  let first ← sys .fs (removexattrAt (.removexattr .fs) inode.fd name)
  replyFirst first
  let second ← sys .id (removexattrAt (.removexattr .id) inode.idFd name)
  replyFirst second
  let ret ← convertUnmarked ino name
  reply (.err ret)

inductive Req where
  | lookup (parent : Ref) (name : FileName)
  | mknod (parent : Ref) (name : FileName) (kind : Kind) (link : Bytes)
  | link (ino parent : Ref) (name : FileName)
  | create (parent : Ref) (name : FileName) (flags : Flags)
  | rmdir (parent : Ref) (name : FileName)
  | rename (parent : Ref) (name : FileName) (newparent : Ref) (newname : FileName) (flags : Bool)
  | unlink (parent : Ref) (name : FileName)
  | forget (ino : Ref) (n : Nat)
  | forgetMulti (forgets : List (Ref × Nat))
  | readdirplus (ino : Ref) (stream : List DirEntry)
  | openFile (ino : Ref) (flags : Flags)
  | release (ino : Ref) (fh : Handle)
  | writeBuf (ino : Ref) (fh : Handle) (off : Nat) (data : Bytes)
  | getattr (ino : Ref)
  | setattr (ino : Ref) (size : Nat) (fi : Option Handle)
  | setxattr (ino : Ref) (name value : Bytes) (flag : SetFlag)
  | removexattr (ino : Ref) (name : Bytes)

def handle : Req → Handler Unit
  | .lookup parent name => sfsLookup parent name
  | .mknod parent name kind link => mknodSymlink parent name kind link
  | .link ino parent name => sfsLink ino parent name
  | .create parent name flags => sfsCreate parent name flags
  | .rmdir parent name => sfsRmdir parent name
  | .rename parent name newparent newname flags => sfsRename parent name newparent newname flags
  | .unlink parent name => sfsUnlink parent name
  | .forget ino n => sfsForget ino n
  | .forgetMulti forgets => sfsForgetMulti forgets
  | .readdirplus ino stream => sfsReaddirplus ino stream
  | .openFile ino flags => sfsOpen ino flags
  | .release ino fh => sfsRelease ino fh
  | .writeBuf ino fh off data => sfsWriteBuf ino fh off data
  | .getattr ino => sfsGetattr ino
  | .setattr ino size fi => sfsSetattr ino size fi
  | .setxattr ino name value flag => sfsSetxattr ino name value flag
  | .removexattr ino name => sfsRemovexattr ino name

structure Options where
  idroot : Bytes
  address : Bytes
  cached : Bool
  deriving DecidableEq, Repr

def bootMount (v : Volume Call) : Mount Call :=
  Mount.install ⟨v,[],0,by simp,[]⟩ ⟨v.tree.root,none,.path⟩

-- main: the source is resolved with realpath, the ID root is taken as it was given.
def boot (opts : Options) (fs id : Volume Call) : State where
  fs := bootMount fs
  id := bootMount id
  inodes := Arena.empty
  root := {fd := .fd 0, idFd := .fd 0, nlookup := 9999}
  conf := ⟨absolute fs.mount,opts.idroot,opts.address,opts.cached,fs.dev⟩
  replies := []
  sent := []
  sockets := 0
  pairs := []

-- The end of the process gives all its descriptors back.
def Mount.exit (m : Mount Call) : Volume Call :=
  {m.vol with busy := m.opened.foldl (fun busy o => busy.erase o.2.entry.ino) m.vol.busy}

def restart (d : State) : State :=
  let opts : Options := ⟨d.conf.idroot,d.conf.address,d.conf.cached⟩
  {boot opts (Mount.exit d.fs) (Mount.exit d.id) with pairs := d.pairs}

inductive Step where
  | request (req : Req) (env : Env Call)
  | restart

def step (d : State) : Step → Option State
  | .request req env => (handle req env {d with replies := []}).map Prod.snd
  | .restart => some (restart d)

def foundAt (m : Mount Call) (dir : Slot) (name : FileName) : Option Entry := match m.dirAt dir with
  | .ok (_,p) => m.vol.tree.find (p ++ [name])
  | .error _ => none

-- openat follows a symbolic link that a create finds, and the calls here do not.
def Direct (d : State) : Req → Prop
  | .create parent name flags => flags.excl = true ∨ ∀ dir ∈ d.inode parent, ∀ side ∈ [Side.fs,.id],
      ∀ entry ∈ foundAt (d.mount side) (dir.copy side) name, entry.isDir = true ∨ entry.kind = .reg
  | _ => True

-- do_lookup can close the descriptor that it has stored, and its number is then given out again.
def FilesOpen (d : State) : Prop :=
  ∀ c ∈ d.inodes.cells, c.value.Live → (d.fs.file c.value.fd).isSome = true

def Faithful (d : State) (req : Req) : Prop := Direct d req ∧ FilesOpen d
instance (d req) : Decidable (Faithful d req) := by
  unfold Faithful FilesOpen Direct
  split <;> infer_instance

def Scoped (d : State) : Step → Prop
  | .request req _ => Faithful d req
  | .restart => True
instance (d s) : Decidable (Scoped d s) := by
  unfold Scoped
  split <;> infer_instance

def emptyVolume (dev : Dev) (mount : FileName) : Volume Call :=
  ⟨dev,[mount],Tree.bare ⟨2,.dir⟩ rfl,bareDistinct rfl,fun _ => ⟨[],fun _ => none,.connect⟩,[]⟩

def calm (ino : Ino) : Env Call := ⟨fun _ => none,fun _ => ino,fun _ => 4096⟩

def nameA : FileName := ⟨[97],by decide⟩
def nameB : FileName := ⟨[98],by decide⟩
def nameId : FileName := ⟨[97,46,105,100],by decide⟩

theorem okS : NameOk [115] := by decide
theorem okI : NameOk [105] := by decide

def mounted (cached : Bool) : State :=
  boot ⟨[47,105],[49],cached⟩ (emptyVolume 1 ⟨[115],okS⟩) (emptyVolume 7 ⟨[105],okI⟩)

def forWriting : Flags := ⟨.readWrite,false,false⟩

end F3.Driver
