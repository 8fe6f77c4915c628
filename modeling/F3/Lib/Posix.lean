import F3.Lib.Bytes
import F3.Lib.Prog
import F3.Lib.Tree

/-! File systems as the calls of POSIX see them: a volume with its directory tree, and
the descriptors one process holds on it. Calls are made at call sites of a type `χ`;
the environment may fail any of them there with any error, and chooses the inode
numbers of new files among the free ones. A failed call changes nothing. -/
namespace F3.Lib.Posix
open Lib (Bytes Tree Act)

abbrev Ino := Nat
abbrev Dev := Nat
abbrev Fd := Nat

def NameOk (b : Bytes) : Prop := b ≠ [] ∧ 47 ∉ b ∧ 0 ∉ b ∧ b ≠ [46] ∧ b ≠ [46,46]
instance (b) : Decidable (NameOk b) := by unfold NameOk; infer_instance

abbrev FileName := {b : Bytes // NameOk b}

inductive Errno where
  | eperm | enoent | eio | enxio | ebadf | enomem | eexist | enotdir | eisdir | einval | enfile
  | emfile | enospc | enotempty | enametoolong | eloop | enodata | erange | enotsup
  | other (code : Nat)
  deriving DecidableEq, Repr

inductive Kind where
  | dir | reg | lnk | special
  deriving DecidableEq, Repr

structure Entry where
  ino : Ino
  kind : Kind
  deriving DecidableEq, Repr

def Entry.isDir (e : Entry) : Bool := e.kind = .dir

/- `origin` is the call site that made the file. -/
structure Node (χ : Type) where
  content : Bytes
  xattr : Bytes → Option Bytes
  origin : χ

def Distinct (t : Tree FileName Entry Entry.isDir) : Prop :=
  ∀ p q a b, t.find p = some a → t.find q = some b → a.ino = b.ino → a = b

/- `mount` is the path of the root directory as the process sees it; `busy` has an
inode number once for each descriptor that any process holds on it. -/
structure Volume (χ : Type) where
  dev : Dev
  mount : List FileName
  tree : Tree FileName Entry Entry.isDir
  distinct : Distinct tree
  nodes : Ino → Node χ
  busy : List Ino

inductive Access where
  | path | read | write | readWrite | append | readAppend
  deriving DecidableEq, Repr

structure File where
  entry : Entry
  dentry : Option (Entry × FileName)
  access : Access
  deriving DecidableEq, Repr

-- What an int that should hold a descriptor holds: -1, -ENOENT, or a descriptor.
inductive Slot where
  | closed | enoent | fd (n : Fd)
  deriving DecidableEq, Repr

/- Descriptors are numbered in the order they are opened, so that none is used twice.
`stray` is a history variable: the numbers that close was given while they were not open. -/
structure Mount (χ : Type) where
  vol : Volume χ
  opened : List (Fd × File)
  next : Fd
  fresh : ∀ o ∈ opened, o.1 < next
  stray : List Fd

structure Env (χ : Type) where
  fault : χ → Option Errno
  ino : χ → Ino
  count : χ → Nat

variable {χ α : Type}

namespace Volume

def Free (v : Volume χ) (ino : Ino) : Prop := ino ∉ v.busy ∧ ∀ e ∈ v.tree.entries, e.2.ino ≠ ino
instance (v : Volume χ) (ino) : Decidable (v.Free ino) := by unfold Free; infer_instance

def setNode (v : Volume χ) (ino : Ino) (node : Node χ) : Volume χ :=
  {v with nodes := fun i => if i = ino then node else v.nodes i}

theorem addDistinct {t : Tree FileName Entry Entry.isDir} {p name entry} (distinct : Distinct t)
    (ok : t.Addable p name entry) (same : ∀ e ∈ t.entries, e.2.ino = entry.ino → e.2 = entry) :
    Distinct (t.add p name entry ok) := by
  have new : ∀ {q a}, t.find q = some a → a.ino = entry.ino → a = entry :=
    fun found ino => same _ (Tree.foundMem.mp found) ino
  intro q r a b one two ino
  rw [Tree.findAdd] at one two
  split at one <;> split at two
  · exact Option.some.inj (one.symm.trans two)
  · cases Option.some.inj one
    exact (new two ino.symm).symm
  · cases Option.some.inj two
    exact new one ino
  · exact distinct q r a b one two ino

theorem removeDistinct {t : Tree FileName Entry Entry.isDir} {p} (distinct : Distinct t)
    (ok : t.Removable p) : Distinct (t.remove p ok) := by
  intro q r a b one two ino
  rw [Tree.findRemove] at one two
  split at one <;> try contradiction
  split at two <;> try contradiction
  exact distinct q r a b one two ino

theorem moveDistinct {t : Tree FileName Entry Entry.isDir} {old new} (distinct : Distinct t)
    (ok : t.Movable old new) : Distinct (t.move old new ok) := by
  intro q r a b one two ino
  obtain ⟨p,left,_⟩ := Tree.movedFrom ok one
  obtain ⟨p',right,_⟩ := Tree.movedFrom ok two
  exact distinct p p' a b left right ino

def make (v : Volume χ) (origin : χ) (ino : Ino) (kind : Kind) (content : Bytes)
    (p : List FileName) (name : FileName) : Except Errno (Volume χ) :=
  if v.tree.find (p ++ [name]) ≠ none then .error .eexist
  else if free : v.Free ino then
    if ok : v.tree.Addable p name ⟨ino,kind⟩ then
      .ok {v.setNode ino ⟨content,fun _ => none,origin⟩ with
        tree := v.tree.add p name ⟨ino,kind⟩ ok
        distinct := addDistinct v.distinct ok (fun e mem same => absurd same (free.2 e mem))}
    else .error .enoent
  else .error .enospc

theorem linkedOnly {v : Volume χ} {entry} (linked : ¬ v.tree.links entry = 0) :
    ∀ e ∈ v.tree.entries, e.2.ino = entry.ino → e.2 = entry := by
  intro e mem ino
  obtain ⟨p,found⟩ := Tree.linkedAt linked
  exact v.distinct e.1 p e.2 entry (Tree.foundMem.mpr mem) found ino

def link (v : Volume χ) (entry : Entry) (p : List FileName) (name : FileName) :
    Except Errno (Volume χ) :=
  if entry.isDir then .error .eperm
  else if linked : v.tree.links entry = 0 then .error .enoent
  else if v.tree.find (p ++ [name]) ≠ none then .error .eexist
  else if ok : v.tree.Addable p name entry then
    .ok {v with
      tree := v.tree.add p name entry ok
      distinct := addDistinct v.distinct ok (linkedOnly linked)}
  else .error .enoent

def remove (v : Volume χ) (rmdir : Bool) (p : List FileName) : Except Errno (Volume χ) :=
  match v.tree.find p with
  | none => .error .enoent
  | some entry =>
      if rmdir = true ∧ entry.isDir = false then .error .enotdir
      else if rmdir = false ∧ entry.isDir = true then .error .eisdir
      else if ok : v.tree.Removable p then
        .ok {v with tree := v.tree.remove p ok, distinct := removeDistinct v.distinct ok}
      else .error .enotempty

def move (v : Volume χ) (old new : List FileName) : Except Errno (Volume χ) :=
  if ok : v.tree.Movable old new then
    .ok {v with tree := v.tree.move old new ok, distinct := moveDistinct v.distinct ok}
  else .error .einval

/- rename(2): two names of one file stay as they are, and what stood under the new
name is removed. -/
def rename (v : Volume χ) (old new : List FileName) : Except Errno (Volume χ) :=
  match v.tree.find old,v.tree.find new with
  | none,_ => .error .enoent
  | some _,none => v.move old new
  | some entry,some target =>
      if entry = target then .ok v
      else if old <+: new then .error .einval
      else if entry.isDir = true ∧ target.isDir = false then .error .enotdir
      else if entry.isDir = false ∧ target.isDir = true then .error .eisdir
      else do
        let w ← v.remove target.isDir new
        w.move old new

end Volume

theorem bareDistinct {root : Entry} (isDir : root.isDir = true) :
    Distinct (Tree.bare root isDir : Tree FileName Entry Entry.isDir) := by
  intro p q a b one two _
  have left : (p,a) = ([],root) := by simpa [Tree.bare] using Tree.foundMem.mp one
  have right : (q,b) = ([],root) := by simpa [Tree.bare] using Tree.foundMem.mp two
  exact (congrArg Prod.snd left).trans (congrArg Prod.snd right).symm

structure Stat where
  ino : Ino
  dev : Dev
  kind : Kind
  nlink : Nat
  size : Nat
  deriving DecidableEq, Repr

def Volume.stat (v : Volume χ) (entry : Entry) : Stat :=
  ⟨entry.ino,v.dev,entry.kind,if entry.isDir then 2 else v.tree.links entry,
    (v.nodes entry.ino).content.length⟩

def render : List FileName → Bytes
  | [] => []
  | name::rest => 47 :: (name.val ++ render rest)

def absolute (p : List FileName) : Bytes := if p = [] then [47] else render p

namespace Mount

def file (m : Mount χ) : Slot → Option File
  | .fd n => (m.opened.find? (fun o => o.1 = n)).map Prod.snd
  | _ => none

def dirAt (m : Mount χ) (slot : Slot) : Except Errno (Entry × List FileName) :=
  match m.file slot with
  | none => .error .ebadf
  | some f =>
      if f.entry.isDir then
        match m.vol.tree.pathOf f.entry with
        | none => .error .enoent
        | some p => .ok (f.entry,p)
      else .error .enotdir

def install (m : Mount χ) (f : File) : Mount χ where
  vol := {m.vol with busy := f.entry.ino :: m.vol.busy}
  opened := (m.next,f) :: m.opened
  next := m.next + 1
  stray := m.stray
  fresh := by
    intro o mem
    rcases List.mem_cons.mp mem with rfl | old
    · exact Nat.lt_succ_self _
    · exact Nat.lt_succ_of_lt (m.fresh o old)

def drop (m : Mount χ) (n : Fd) (ino : Ino) : Mount χ where
  vol := {m.vol with busy := m.vol.busy.erase ino}
  opened := m.opened.filter (fun o => o.1 ≠ n)
  next := m.next
  fresh := fun o mem => m.fresh o (List.mem_filter.mp mem).1
  stray := m.stray

def filePath (m : Mount χ) (f : File) : Option (List FileName) :=
  match f.dentry with
  | none => some []
  | some (dir,name) => (m.vol.tree.pathOf dir).map (· ++ [name])

end Mount

abbrev Sys (χ α : Type) := Act (Env χ) (Mount χ) α

def syscall (c : χ) (f : Env χ → Mount χ → Except Errno (α × Mount χ)) : Sys χ (Except Errno α) :=
  fun e m => match e.fault c with
    | some err => (.error err,m)
    | none => match f e m with
        | .ok (a,m') => (.ok a,m')
        | .error err => (.error err,m)

theorem syscallCases (c : χ) (f : Env χ → Mount χ → Except Errno (α × Mount χ)) (e : Env χ)
    (m : Mount χ) : (∃ err, syscall c f e m = (.error err,m)) ∨
      ∃ a m', e.fault c = none ∧ f e m = .ok (a,m') ∧ syscall c f e m = (.ok a,m') := by
  unfold syscall
  split
  · exact Or.inl ⟨_,rfl⟩
  · rename_i quiet
    split
    · rename_i a m' done
      exact Or.inr ⟨a,m',quiet,done,rfl⟩
    · exact Or.inl ⟨_,rfl⟩

def close (slot : Slot) : Sys χ Unit := fun _ m =>
  match slot with
  | .fd n => match m.opened.find? (fun o => o.1 = n) with
      | some (_,f) => ((),m.drop n f.entry.ino)
      | none => ((),{m with stray := n :: m.stray})
  | _ => ((),m)

-- openat(dir, name, O_PATH | O_NOFOLLOW)
def openPath (c : χ) (dir : Slot) (name : FileName) : Sys χ (Except Errno Slot) :=
  syscall c fun _ m => do
    let (up,p) ← m.dirAt dir
    match m.vol.tree.find (p ++ [name]) with
    | none => .error .enoent
    | some entry => .ok (.fd m.next,m.install ⟨entry,some (up,name),.path⟩)

structure Flags where
  access : Access
  excl : Bool
  trunc : Bool
  deriving DecidableEq, Repr

/- Opening a file that is there for reading or writing. Links are not followed and
special files not opened: both lie outside the volume. -/
def openEntry (m : Mount χ) (flags : Flags) (entry : Entry) (dentry : Option (Entry × FileName)) :
    Except Errno (Slot × Mount χ) :=
  match entry.kind with
  | .dir => if flags.access = .read then .ok (.fd m.next,m.install ⟨entry,dentry,.read⟩)
      else .error .eisdir
  | .reg =>
      let node := m.vol.nodes entry.ino
      let vol := if flags.trunc then m.vol.setNode entry.ino {node with content := []} else m.vol
      .ok (.fd m.next,{m with vol := vol}.install ⟨entry,dentry,flags.access⟩)
  | .lnk => .error .eloop
  | .special => .error .enxio

-- openat(dir, name, flags | O_CREAT, mode)
def openCreate (c : χ) (dir : Slot) (name : FileName) (flags : Flags) : Sys χ (Except Errno Slot) :=
  syscall c fun e m => do
    let (up,p) ← m.dirAt dir
    match m.vol.tree.find (p ++ [name]) with
    | some entry =>
        if flags.excl then .error .eexist
        else if entry.isDir then .error .eisdir
        else openEntry m flags entry (some (up,name))
    | none => do
        let vol ← m.vol.make c (e.ino c) .reg [] p name
        .ok (.fd m.next,{m with vol := vol}.install ⟨⟨e.ino c,.reg⟩,some (up,name),flags.access⟩)

-- open("/proc/self/fd/N", flags)
def reopen (c : χ) (slot : Slot) (flags : Flags) : Sys χ (Except Errno Slot) :=
  syscall c fun _ m => match m.file slot with
    | none => .error .enoent
    | some f => openEntry m flags f.entry f.dentry

def fstat (c : χ) (slot : Slot) : Sys χ (Except Errno Stat) :=
  syscall c fun _ m => match m.file slot with
    | none => .error .ebadf
    | some f => .ok (m.vol.stat f.entry,m)

-- mkdirat, mknodat and symlinkat; the content of a symbolic link is its target.
def makeAt (c : χ) (dir : Slot) (name : FileName) (kind : Kind) (content : Bytes) :
    Sys χ (Except Errno Unit) :=
  syscall c fun e m => do
    let (_,p) ← m.dirAt dir
    let vol ← m.vol.make c (e.ino c) kind content p name
    .ok ((),{m with vol := vol})

-- linkat(AT_FDCWD, "/proc/self/fd/N", dir, name, AT_SYMLINK_FOLLOW)
def linkAt (c : χ) (slot dir : Slot) (name : FileName) : Sys χ (Except Errno Unit) :=
  syscall c fun _ m => match m.file slot with
    | none => .error .enoent
    | some f => do
        let (_,p) ← m.dirAt dir
        let vol ← m.vol.link f.entry p name
        .ok ((),{m with vol := vol})

def unlinkAt (c : χ) (dir : Slot) (name : FileName) (rmdir : Bool) : Sys χ (Except Errno Unit) :=
  syscall c fun _ m => do
    let (_,p) ← m.dirAt dir
    let vol ← m.vol.remove rmdir (p ++ [name])
    .ok ((),{m with vol := vol})

def renameAt (c : χ) (dir : Slot) (name : FileName) (newdir : Slot) (newname : FileName) :
    Sys χ (Except Errno Unit) :=
  syscall c fun _ m => do
    let (_,p) ← m.dirAt dir
    let (_,q) ← m.dirAt newdir
    let vol ← m.vol.rename (p ++ [name]) (q ++ [newname])
    .ok ((),{m with vol := vol})

-- readlink("/proc/self/fd/N"): the kernel has one page for the path.
def readlinkFd (c : χ) (slot : Slot) : Sys χ (Except Errno Bytes) :=
  syscall c fun _ m => match m.file slot with
    | none => .error .enoent
    | some f => match m.filePath f with
        | none => .error .enoent
        | some p =>
            let full := absolute (m.vol.mount ++ p)
            if full.length < 4096 then .ok (full,m) else .error .enametoolong

/- Extended attributes of the user namespace belong to files and directories only. -/
def attrFile (m : Mount χ) (slot : Slot) : Except Errno File :=
  match m.file slot with
  | none => .error .enoent
  | some f => match f.entry.kind with
      | .dir => .ok f
      | .reg => .ok f
      | _ => .error .eperm

def fullFile (m : Mount χ) (slot : Slot) : Except Errno File :=
  match m.file slot with
  | none => .error .ebadf
  | some f => if f.access = .path then .error .ebadf else attrFile m slot

inductive SetFlag where
  | any | create | replace
  deriving DecidableEq, Repr

def Mount.setAttr (m : Mount χ) (ino : Ino) (name : Bytes) (value : Option Bytes) : Mount χ :=
  let node := m.vol.nodes ino
  let changed := {node with xattr := fun a => if a = name then value else node.xattr a}
  {m with vol := m.vol.setNode ino changed}

def fsetxattr (c : χ) (slot : Slot) (name value : Bytes) : Sys χ (Except Errno Unit) :=
  syscall c fun _ m => do
    let f ← fullFile m slot
    .ok ((),m.setAttr f.entry.ino name (some value))

def fgetxattr (c : χ) (slot : Slot) (name : Bytes) (size : Nat) : Sys χ (Except Errno Bytes) :=
  syscall c fun _ m => do
    let f ← fullFile m slot
    match (m.vol.nodes f.entry.ino).xattr name with
    | none => .error .enodata
    | some value => if value.length ≤ size then .ok (value,m) else .error .erange

def setxattrAt (c : χ) (slot : Slot) (name value : Bytes) (flag : SetFlag) :
    Sys χ (Except Errno Unit) :=
  syscall c fun _ m => do
    let f ← attrFile m slot
    let old := (m.vol.nodes f.entry.ino).xattr name
    if flag = .create ∧ old.isSome then .error .eexist
    else if flag = .replace ∧ old.isNone then .error .enodata
    else .ok ((),m.setAttr f.entry.ino name (some value))

def removexattrAt (c : χ) (slot : Slot) (name : Bytes) : Sys χ (Except Errno Unit) :=
  syscall c fun _ m => do
    let f ← attrFile m slot
    match (m.vol.nodes f.entry.ino).xattr name with
    | none => .error .enodata
    | some _ => .ok ((),m.setAttr f.entry.ino name none)

def Mount.setContent (m : Mount χ) (ino : Ino) (content : Bytes) : Mount χ :=
  let node := m.vol.nodes ino
  {m with vol := m.vol.setNode ino {node with content := content}}

def Access.writes : Access → Bool
  | .path => false
  | .read => false
  | _ => true

-- O_APPEND
def Access.appends : Access → Bool
  | .append => true
  | .readAppend => true
  | _ => false

def writable (m : Mount χ) (slot : Slot) : Except Errno File :=
  match m.file slot with
  | none => .error .ebadf
  | some f => if f.access.writes ∧ f.entry.kind = .reg then .ok f else .error .ebadf

def ftruncate (c : χ) (slot : Slot) (size : Nat) : Sys χ (Except Errno Unit) :=
  syscall c fun _ m => do
    let f ← writable m slot
    .ok ((),m.setContent f.entry.ino ((m.vol.nodes f.entry.ino).content.truncate size))

def truncateAt (c : χ) (slot : Slot) (size : Nat) : Sys χ (Except Errno Unit) :=
  syscall c fun _ m => match m.file slot with
    | none => .error .enoent
    | some f => match f.entry.kind with
        | .reg => .ok ((),m.setContent f.entry.ino
            ((m.vol.nodes f.entry.ino).content.truncate size))
        | .dir => .error .eisdir
        | _ => .error .einval

-- pwrite may be short: the environment says how many bytes it takes.
def pwriteAt (c : χ) (slot : Slot) (off : Nat) (data : Bytes) : Sys χ (Except Errno Nat) :=
  syscall c fun e m => do
    let f ← writable m slot
    let n := min (e.count c) data.length
    .ok (n,m.setContent f.entry.ino ((m.vol.nodes f.entry.ino).content.pwrite off (data.take n)))

-- Where the bytes go: an appending descriptor writes at the end, whatever the offset.
def landing (m : Mount χ) (slot : Slot) (off : Nat) : Nat := match m.file slot with
  | some f => if f.access.appends then (m.vol.nodes f.entry.ino).content.length else off
  | none => off

def writeAt (c : χ) (slot : Slot) (off : Nat) (data : Bytes) : Sys χ (Except Errno Nat) :=
  fun e m => pwriteAt c slot (landing m slot off) data e m

theorem writeAtKeeps {R : Mount χ → Mount χ → Prop} {c : χ} {slot : Slot} {data : Bytes}
    (each : ∀ off, Act.Keeps R (pwriteAt c slot off data)) (off : Nat) : Act.Keeps R (writeAt c slot off data) :=
  fun e m => each (landing m slot off) e m

def Access.reads : Access → Bool
  | .read => true
  | .readWrite => true
  | .readAppend => true
  | _ => false

/- Calls without a call site of their own: what they do when nothing outside fails them. -/
namespace Mount

-- readlinkat(slot, "", buf, size)
def readlink (m : Mount χ) (slot : Slot) (size : Nat) : Except Errno (Bytes × Mount χ) :=
  match m.file slot with
  | none => .error .ebadf
  | some f => if f.entry.kind = .lnk then .ok ((m.vol.nodes f.entry.ino).content.take size,m)
      else .error .enoent

-- openat(slot, ".", O_RDONLY)
def openDot (m : Mount χ) (slot : Slot) : Except Errno (Slot × Mount χ) :=
  match m.file slot with
  | none => .error .ebadf
  | some f => if f.entry.isDir then .ok (.fd m.next,m.install ⟨f.entry,f.dentry,.read⟩)
      else .error .enotdir

def pread (m : Mount χ) (slot : Slot) (off size : Nat) : Except Errno (Bytes × Mount χ) :=
  match m.file slot with
  | none => .error .ebadf
  | some f =>
      if f.access.reads = false then .error .ebadf
      else if f.entry.isDir then .error .eisdir
      else .ok (((m.vol.nodes f.entry.ino).content.drop off).take size,m)

def fallocate (m : Mount χ) (slot : Slot) (off length : Nat) : Except Errno (Unit × Mount χ) := do
  let f ← writable m slot
  let content := (m.vol.nodes f.entry.ino).content
  if length = 0 then .error .einval
  else .ok ((),m.setContent f.entry.ino (content.truncate (max content.length (off + length))))

def getxattr (m : Mount χ) (slot : Slot) (name : Bytes) : Except Errno (Bytes × Mount χ) := do
  let f ← attrFile m slot
  match (m.vol.nodes f.entry.ino).xattr name with
  | none => .error .enodata
  | some value => .ok (value,m)

-- dup, fsync, flock and fstatvfs of a descriptor.
def known (m : Mount χ) (slot : Slot) : Except Errno (Unit × Mount χ) :=
  match m.file slot with
  | none => .error .ebadf
  | some _ => .ok ((),m)

end Mount

end F3.Lib.Posix
