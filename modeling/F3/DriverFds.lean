import F3.DriverFrames
import F3.DriverAnswers
import F3.Lib.PosixFds

/-! The descriptors of the driver: which ones its inodes store, and what each part of a
handler does to the open ones. -/
namespace F3.Driver.Fds
open Lib (Bytes Arena Cell Prog Act)
open Lib.Prog (keepsBind bindSome keepsPure pureSome keepsOnlyIf keepsModify)
open Lib.Posix

structure Shape where
  addr : Nat
  key : SrcId
  fd : Slot
  idFd : Slot
  clientFd : Option Nat
  deriving DecidableEq, Repr

def shapeOf (c : Cell SrcId Inode) : Shape :=
  ⟨c.addr,c.key,c.value.fd,c.value.idFd,c.value.clientFd⟩

def shape (d : State) : List Shape := d.inodes.cells.map shapeOf

structure Kept (d d' : State) : Prop where
  fs : Tidy d.fs d'.fs
  id : Tidy d.id d'.id
  cells : shape d' = shape d
  root : d'.root.fd = d.root.fd ∧ d'.root.idFd = d.root.idFd
  sockets : d'.sockets = d.sockets

instance : IsPreorder State Kept where
  refl d := ⟨refl_of Tidy d.fs,refl_of Tidy d.id,rfl,⟨rfl,rfl⟩,rfl⟩
  trans _ _ _ one two := ⟨trans_of Tidy one.fs two.fs,trans_of Tidy one.id two.id,
    two.cells.trans one.cells,⟨two.root.1.trans one.root.1,two.root.2.trans one.root.2⟩,
    two.sockets.trans one.sockets⟩

section Sys
variable {α β : Type}

theorem borrowTidy (c : Call) (fd : Slot) (access : Access) (failed : Errno → β)
    {body : Slot → Sys Call α} (last : α → β) (each : ∀ newfd, Act.Keeps Tidy (body newfd)) :
    Act.Keeps Tidy (f3GetFullFd c fd access >>= fun r => match r with
      | .error err => pure (failed err)
      | .ok newfd => body newfd >>= fun a => close newfd >>= fun _ => pure (last a)) := by
  intro e m
  rcases reopenOpens c e m fd ⟨access,false,false⟩ with ⟨err,same⟩ | ⟨f,n,same,opened⟩
  · simp only [bind,f3GetFullFd,same]
    exact refl_of Tidy m
  · simp only [bind,f3GetFullFd,same]
    exact openedClosed (openedTidy opened (each _ e n)) e

theorem isIdTidy (caller : Caller) (fd : Slot) : Act.Keeps Tidy (f3IsId caller fd) :=
  borrowTidy _ _ _ (fun _ => false) _ fun _ => fgetxattrTidy _ _ _ _

theorem getAttrTidy (attr : Bytes) (size : Nat) (fd : Slot) : Act.Keeps Tidy (f3GetAttr attr size fd) :=
  borrowTidy _ _ _ (fun _ => []) _ fun _ => fgetxattrTidy _ _ _ _

theorem getSizeTidy (fd : Slot) : Act.Keeps Tidy (f3GetSizeXattr fd) := fun e m =>
  getAttrTidy f3Size 23 fd e m

theorem updateSizeTidy (fd : Slot) (size : Nat) : Act.Keeps Tidy (f3UpdateSizeXattr fd size) :=
  borrowTidy _ _ _ (fun _ => ()) (fun _ => ()) fun _ => fsetxattrTidy _ _ _ _

theorem andThenTidy {p : Sys Call (Except Errno α)} {f : α → Sys Call (Except Errno β)}
    (first : Act.Keeps Tidy p) (rest : ∀ a, Act.Keeps Tidy (f a)) : Act.Keeps Tidy (andThen p f) := by
  refine Act.keepsBind first fun r => ?_
  cases r with
  | error err => exact Act.keepsPure _
  | ok a => exact rest a

theorem setMarksTidy (side : Side) (address : Bytes) (newfd fd : Slot) (rootDirLen : Nat) :
    Act.Keeps Tidy (setMarks side address newfd fd rootDirLen) :=
  andThenTidy (fsetxattrTidy _ _ _ _) fun _ => andThenTidy (fsetxattrTidy _ _ _ _) fun _ =>
    andThenTidy (readlinkTidy _ _) fun _ => fsetxattrTidy _ _ _ _

theorem markTidy (side : Side) (address : Bytes) (fd : Slot) (rootDirLen : Nat) :
    Act.Keeps Tidy (f3MarkAsId side address fd rootDirLen) :=
  borrowTidy (.mark side .openFd) fd .read (fun _ => (.ok () : Except Errno Unit)) (fun res => res)
    fun newfd => setMarksTidy side address newfd fd rootDirLen

inductive Yields (slot : Slot) (m m' : Mount Call) : Prop where
  | nothing (closed : slot = .closed) (tidy : Tidy m m')
  | open {k f} (isFd : slot = .fd k) (opened : Opened k f m m')

theorem slotSame {m m' : Mount Call} {slot : Slot}
    (same : ∀ n, slot = .fd n → m'.file (.fd n) = m.file (.fd n)) : m'.file slot = m.file slot := by
  cases slot with
  | closed => rfl
  | enoent => rfl
  | fd n => exact same n rfl

theorem heldSlot {m m' : Mount Call} {slot : Slot} {bound : Fd} (held : Held bound m m')
    (below : ∀ n, slot = .fd n → n < bound) : m'.file slot = m.file slot :=
  slotSame fun n isFd => held.same n (below n isFd)

theorem tidyHeld {m m' : Mount Call} {bound : Fd} (tidy : Tidy m m') : Held bound m m' :=
  ⟨tidy.next,fun n _ => tidy.file n⟩

theorem yieldsHeld {slot : Slot} {m n : Mount Call} (yields : Yields slot m n) : Held m.next m n := by
  rcases yields with ⟨_,tidy⟩ | ⟨_,opened⟩
  · exact tidyHeld tidy
  · exact ⟨Nat.le_of_lt (Nat.lt_of_le_of_lt opened.new opened.next),fun n below =>
      opened.others n (Nat.ne_of_lt (Nat.lt_of_lt_of_le below opened.new))⟩

theorem tidyYields {slot : Slot} {m m1 m' : Mount Call} (tidy : Tidy m m1) (yields : Yields slot m1 m') :
    Yields slot m m' := by
  cases yields with
  | nothing closed rest => exact .nothing closed (trans_of Tidy tidy rest)
  | «open» isFd opened => exact .open isFd (tidyOpened tidy opened)

theorem yieldsClosed {slot : Slot} {m m1 m2 : Mount Call} (yields : Yields slot m m1) (tidy : Tidy m1 m2)
    (e : Env Call) : Tidy m (close slot e m2).2 := by
  cases yields with
  | nothing closed rest =>
    subst closed
    exact trans_of Tidy rest tidy
  | «open» isFd opened =>
    subst isFd
    exact openedClosed (openedTidy opened tidy) e

theorem fullFdYields (c : Call) (fd : Slot) (access : Access) (e : Env Call) (m : Mount Call) :
    Yields (slotOf (f3GetFullFd c fd access e m).1) m (f3GetFullFd c fd access e m).2 := by
  rcases reopenOpens c e m fd ⟨access,false,false⟩ with ⟨err,same⟩ | ⟨f,n,same,opened⟩ <;>
    rw [f3GetFullFd,same]
  · exact .nothing rfl (refl_of Tidy m)
  · exact .open rfl opened

theorem openPathYields (c : Call) (dir : Slot) (name : FileName) (e : Env Call) (m : Mount Call) :
    Yields (slotOf (openPath c dir name e m).1) m (openPath c dir name e m).2 := by
  rcases openPathOpens c e m dir name with ⟨err,same⟩ | ⟨f,n,same,opened⟩ <;> rw [same]
  · exact .nothing rfl (refl_of Tidy m)
  · exact .open rfl opened

theorem openCreateYields (c : Call) (dir : Slot) (name : FileName) (flags : Flags) (e : Env Call)
    (m : Mount Call) :
    Yields (slotOf (openCreate c dir name flags e m).1) m (openCreate c dir name flags e m).2 := by
  rcases openCreateOpens c e m dir name flags with ⟨err,same⟩ | ⟨f,n,same,opened⟩ <;> rw [same]
  · exact .nothing rfl (refl_of Tidy m)
  · exact .open rfl opened

theorem openIdCopyYields (idDir : Slot) (name : FileName) (kind : Kind) (e : Env Call) (m : Mount Call) :
    Yields (openIdCopy idDir name kind e m).1.1 m (openIdCopy idDir name kind e m).2 := by
  simp only [openIdCopy,bind]
  rcases openPathOpens .lookupOpenId e m idDir name with ⟨err,same⟩ | ⟨f,n,same,opened⟩
  · rw [same]
    by_cases missing : err = .enoent
    · subst missing
      simp only [makeIdCopy]
      split
      · exact tidyYields (makeAtTidy .lookupMkdir idDir name .dir [] e m) (openPathYields _ _ _ _ _)
      · exact tidyYields (yieldsClosed (openCreateYields .lookupCreate idDir name _ e m) (refl_of Tidy _) e)
          (openPathYields _ _ _ _ _)
    · have other : makeIdCopy idDir name kind (.error err) = pure (.closed,false) := by
        cases err <;> first | rfl | exact absurd rfl missing
      rw [other]
      exact .nothing rfl (refl_of Tidy m)
  · rw [same]
    exact .open rfl opened

end Sys

section Kept
variable {α β : Type}

theorem mountKept (d : State) (side : Side) {m : Mount Call} (tidy : Tidy (d.mount side) m) :
    Kept d (d.setMount side m) := by
  cases side
  · exact ⟨tidy,refl_of Tidy d.id,rfl,⟨rfl,rfl⟩,rfl⟩
  · exact ⟨refl_of Tidy d.fs,tidy,rfl,⟨rfl,rfl⟩,rfl⟩

theorem sysKept (side : Side) {p : Sys Call α} (tidy : Act.Keeps Tidy p) : Prog.Keeps Kept (sys side p) := by
  intro e d a d' ok
  obtain ⟨_,rfl⟩ := sysSome ok
  exact mountKept d side (tidy e (d.mount side))

def Spares (f : Inode → Inode) : Prop :=
  ∀ i, (f i).fd = i.fd ∧ (f i).idFd = i.idFd ∧ (f i).clientFd = i.clientFd

theorem modifyShape {d d' : State} {a : Nat} {f : Inode → Inode} (table : d'.inodes = d.inodes.modify a f)
    (spares : ∀ c ∈ d.inodes.cells, c.addr = a → shapeOf {c with value := f c.value} = shapeOf c) :
    shape d' = shape d := by
  unfold shape
  rw [table]
  simp only [Arena.modify,List.map_map]
  refine List.map_congr_left fun c mem => ?_
  simp only [Function.comp_apply,Arena.update]
  split
  · rename_i here
    exact spares c mem here
  · rfl

theorem setInodeKept (ref : Ref) {f : Inode → Inode} (spares : Spares f) :
    Prog.Keeps Kept (setInode ref f) := by
  refine keepsModify fun d => ?_
  cases ref with
  | root =>
    exact ⟨refl_of Tidy d.fs,refl_of Tidy d.id,rfl,⟨(spares d.root).1,(spares d.root).2.1⟩,rfl⟩
  | node a =>
    refine ⟨refl_of Tidy d.fs,refl_of Tidy d.id,modifyShape rfl fun c _ _ => ?_,⟨rfl,rfl⟩,rfl⟩
    obtain ⟨fd,idFd,clientFd⟩ := spares c.value
    simp [shapeOf,fd,idFd,clientFd]

theorem besideKept {f : State → State} (fs : ∀ d, (f d).fs = d.fs) (id : ∀ d, (f d).id = d.id)
    (inodes : ∀ d, (f d).inodes = d.inodes) (root : ∀ d, (f d).root = d.root)
    (sockets : ∀ d, (f d).sockets = d.sockets) : Prog.Keeps Kept (Prog.modify f : Handler Unit) := by
  refine keepsModify fun d => ⟨?_,?_,?_,?_,sockets d⟩
  · rw [fs]; exact refl_of Tidy d.fs
  · rw [id]; exact refl_of Tidy d.id
  · unfold shape; rw [inodes]
  · rw [root]; exact ⟨rfl,rfl⟩

theorem replyKept (r : Reply) : Prog.Keeps Kept (reply r) :=
  besideKept (fun _ => rfl) (fun _ => rfl) (fun _ => rfl) (fun _ => rfl) fun _ => rfl

theorem sendKept (m : Message) : Prog.Keeps Kept (send m) :=
  besideKept (fun _ => rfl) (fun _ => rfl) (fun _ => rfl) (fun _ => rfl) fun _ => rfl

theorem replyCreateKept (x : EntryParam) (fh : Handle) : Prog.Keeps Kept (replyCreate x fh) :=
  replyCreateKeeps (fun _ => setInodeKept _ fun _ => ⟨rfl,rfl,rfl⟩) replyKept x fh

theorem isNewKept (caller : Caller) (parent : Ref) (name : FileName) :
    Prog.Keeps Kept (f3IsNewId caller parent name) :=
  keepsBind (getInodeKeeps parent) fun _ =>
    keepsBind (sysKept .fs (isIdTidy _ _)) fun _ => keepsPure _

theorem markDirKept (side : Side) (dir : Inode) (name : FileName) :
    Prog.Keeps Kept (markDir side dir name) := by
  intro e d a d' ok
  let opened := openPath (.mknodOpen side) (dir.copy side) name e (d.mount side)
  let marked := f3MarkAsId side d.conf.address (slotOf opened.1) (d.conf.rootDir side).length e opened.2
  have same : d' = d.setMount side (close (slotOf opened.1) e marked.2).2 := by
    cases Option.some.inj ok
    cases side <;> rfl
  rw [same]
  exact mountKept d side (yieldsClosed (openPathYields _ _ _ e _) (markTidy _ _ _ _ e _) e)

theorem mknodIdKept (parent : Ref) (dir : Inode) (name : FileName) (kind : Kind) (link : Bytes) :
    Prog.Keeps Kept (mknodId parent dir name kind link) :=
  mknodIdKeeps (sysKept .id (makeAtTidy _ _ _ _ _)) (isNewKept _ _ _) (fun side => markDirKept side dir name) kind link

theorem keptNames : KeepsNames Kept where
  replies := replyKept
  counts ref _ _ _ _ := setInodeKept ref fun _ => ⟨rfl,rfl,rfl⟩
  stats := sysKept _ (fstatTidy _ _)
  cuts i size fi := by
    cases fi with
    | none => exact sysKept _ (truncateAtTidy _ _ _)
    | some fh => exact sysKept _ (ftruncateTidy _ _ _)
  writes fh off data := sysKept _ (writeAtKeeps (fun _ => pwriteAtTidy _ _ _ _) off)
  links := sysKept _ (linkAtTidy _ _ _ _)
  unlinks := sysKept _ (unlinkAtTidy _ _ _ _)
  renames := sysKept _ (renameAtTidy _ _ _ _ _)

theorem startDownloadKept (ino : Ref) (i : Inode) : Prog.Keeps Kept (startDownload ino i) :=
  startKeeps (sysKept .fs (getAttrTidy _ _ _)) (sysKept .fs (getSizeTidy _)) sendKept
    (fun _ => setInodeKept ino fun _ => ⟨rfl,rfl,rfl⟩) i

theorem setxattrKept (ino : Ref) (name value : Bytes) (flag : SetFlag) :
    Prog.Keeps Kept (sfsSetxattr ino name value flag) :=
  keepsBind (getInodeKeeps ino) fun _ =>
    keptNames.two (sysKept .fs (setxattrAtTidy _ _ _ _ _)) (sysKept .id (setxattrAtTidy _ _ _ _ _)) keptNames.replyErr

theorem contentKept (d : State) (ino : Ino) (content : Bytes) :
    Kept d {d with fs := d.fs.setContent ino content} := by
  have tidy : Tidy d.fs (d.fs.setContent ino content) := sameTidy rfl rfl rfl
  exact mountKept d .fs tidy

theorem makeIdFsKept (ino : Ref) : Prog.Keeps Kept (f3MakeIdFs ino) := by
  intro e d r d' ok
  obtain ⟨i,d0,got,one⟩ := bindSome ok
  obtain ⟨rfl,_⟩ := getInodeSome got
  obtain ⟨fsFd,d1,openedFs,two⟩ := bindSome one
  obtain ⟨isFs,rfl⟩ := sysSome openedFs
  obtain ⟨idFd,d2,openedId,three⟩ := bindSome two
  obtain ⟨isId,rfl⟩ := sysSome openedId
  obtain ⟨u,d3,now,four⟩ := bindSome three
  cases Option.some.inj now
  obtain ⟨copied,d4,copies,five⟩ := bindSome four
  obtain ⟨err,d5,cut,six⟩ := bindSome five
  obtain ⟨_,d6,closedFs,seven⟩ := bindSome six
  obtain ⟨_,rfl⟩ := sysSome closedFs
  obtain ⟨_,d7,closedId,last⟩ := bindSome seven
  obtain ⟨_,rfl⟩ := sysSome closedId
  obtain ⟨_,rfl⟩ := pureSome last
  have empties : Prog.Keeps Kept (emptyIdCopy ino (slotOf idFd) copied) := by
    cases copied with
    | error err => exact keepsPure _
    | ok _ =>
      exact keepsBind (sysKept .id (ftruncateTidy _ _ _)) fun _ =>
        keepsBind (setInodeKept ino fun _ => ⟨rfl,rfl,rfl⟩) fun _ => keepsPure _
  have inside := trans_of Kept (sendfileKeeps contentKept _ _ _ _ _ e _ _ _ copies) (empties e _ _ _ cut)
  have yields := fullFdYields (.convertOpen .fs) i.fd .readWrite e d0.fs
  have yieldsId := fullFdYields (.convertOpen .id) i.idFd .readWrite e d0.id
  rw [isFs,isId]
  exact ⟨yieldsClosed yields inside.fs e,yieldsClosed yieldsId inside.id e,inside.cells,inside.root,
    inside.sockets⟩

theorem removexattrKept (ino : Ref) (name : Bytes) : Prog.Keeps Kept (sfsRemovexattr ino name) := by
  refine keepsBind (getInodeKeeps ino) fun _ =>
    keptNames.two (sysKept .fs (removexattrAtTidy _ _ _)) (sysKept .id (removexattrAtTidy _ _ _)) fun r =>
    keepsBind (replyFirstKeeps (fun _ => replyKept _) r) fun _ => keepsBind ?_ fun _ => replyKept _
  exact Prog.keepsIte (makeIdFsKept ino) (keepsPure _)

end Kept

def FsTidy (d d' : State) : Prop := Tidy d.fs d'.fs

instance : IsPreorder State FsTidy where
  refl d := refl_of Tidy d.fs
  trans _ _ _ one two := trans_of Tidy one two

section FsSide
variable {α : Type}

theorem sysFsTidy {p : Sys Call α} (tidy : Act.Keeps Tidy p) : Prog.Keeps FsTidy (sys .fs p) :=
  fun e d a d' ok => (sysKept .fs tidy e d a d' ok).fs

theorem besideFsTidy {f : State → State} (same : ∀ d, (f d).fs = d.fs) :
    Prog.Keeps FsTidy (Prog.modify f : Handler Unit) := by
  refine keepsModify fun d => ?_
  unfold FsTidy
  rw [same]
  exact refl_of Tidy d.fs

theorem sysIdFsTidy (p : Sys Call α) : Prog.Keeps FsTidy (sys .id p) := by
  intro e d a d' ok
  obtain ⟨_,rfl⟩ := sysSome ok
  exact refl_of Tidy d.fs

theorem setInodeFsTidy (ref : Ref) (f : Inode → Inode) : Prog.Keeps FsTidy (setInode ref f) :=
  besideFsTidy fun _ => by cases ref <;> rfl

theorem fsTidyBuild : KeepsBuild FsTidy where
  sets _ _ := setInodeFsTidy _ _
  sockets d _ := refl_of Tidy d.fs
  asks := sysFsTidy (isIdTidy _ _)
  copies := sysIdFsTidy _

theorem answerFs {a generation : Nat} {newfd : Slot} {attr : Stat} {e : Env Call} {d : State} {r d'}
    (ok : answerAttr a generation newfd attr e d = some (r,d')) :
    (∃ x, r = .ok x) ∧ Tidy d.fs d'.fs ∨ (∃ err, r = .error err) ∧ d'.fs = (close newfd e d.fs).2 := by
  obtain ⟨i,d1,got,rest⟩ := bindSome ok
  obtain ⟨rfl,_⟩ := getInodeSome got
  split at rest
  · obtain ⟨st,d2,stat,rest⟩ := bindSome rest
    obtain ⟨_,rfl⟩ := sysSome stat
    cases st with
    | error err =>
      obtain ⟨_,d3,closed,last⟩ := bindSome rest
      obtain ⟨_,rfl⟩ := sysSome closed
      obtain ⟨rfl,rfl⟩ := pureSome last
      exact Or.inr ⟨⟨err,rfl⟩,rfl⟩
    | ok st =>
      obtain ⟨size,d3,asked,rest⟩ := bindSome rest
      obtain ⟨_,d4,stamped,last⟩ := bindSome rest
      obtain ⟨rfl,rfl⟩ := pureSome last
      have one := sysFsTidy (getSizeTidy _) e _ _ _ asked
      exact Or.inl ⟨⟨_,rfl⟩,trans_of FsTidy one (setInodeFsTidy _ _ e _ _ _ stamped)⟩
  · obtain ⟨rfl,rfl⟩ := pureSome rest
    exact Or.inl ⟨⟨_,rfl⟩,refl_of Tidy _⟩

inductive LookedFs (name : FileName) (e : Env Call) (d : State) (dir : Inode)
    (r : Except Errno EntryParam) (d' : State) : Prop where
  | missed (nothing : resolve e d.fs d.conf.srcDev dir name = none) (tidy : Tidy d.fs d'.fs)
  | refused {f} (nothing : resolve e d.fs d.conf.srcDev dir name = none)
      (opened : Opened d.fs.next f d.fs d'.fs)
      (why : ∃ up p entry, d.fs.dirAt dir.fd = .ok (up,p) ∧
        d.fs.vol.tree.find (p ++ [name]) = some entry ∧ (d.fs.vol.dev ≠ d.conf.srcDev ∨ entry.ino = 1))
  | counted {attr} (found : resolve e d.fs d.conf.srcDev dir name = some (.fd d.fs.next,attr))
      (live : (slotted d (attr.ino,attr.dev)).Live) (next : d.fs.next ≤ d'.fs.next)
      (file : ∀ n, d'.fs.file (.fd n) = d.fs.file (.fd n))
      (stray : (∃ x, r = .ok x) → d'.fs.stray = d.fs.stray)
  | stored {attr f} (found : resolve e d.fs d.conf.srcDev dir name = some (.fd d.fs.next,attr))
      (dead : ¬ (slotted d (attr.ino,attr.dev)).Live) (answered : ∃ x, r = .ok x)
      (opened : Opened d.fs.next f d.fs d'.fs) (ino : f.entry.ino = attr.ino)
      (there : foundAt d.fs dir.fd name = some f.entry)
  | dropped {attr} (found : resolve e d.fs d.conf.srcDev dir name = some (.fd d.fs.next,attr))
      (dead : ¬ (slotted d (attr.ino,attr.dev)).Live) (failed : ∃ err, r = .error err)
      (tidy : Tidy d.fs d'.fs)

theorem enteredFs {parent : Ref} {name : FileName} {a : Nat} {k : Fd} {attr : Stat} {inode : Inode}
    {e : Env Call} {d0 d : State} {r d'} {f : File} (opened : Opened k f d0.fs d.fs)
    (ok : (enterInode parent name a (.fd k) attr inode >>= fun _ =>
      answerAttr a inode.generation (.fd k) attr) e d = some (r,d')) :
    (inode.Live ∧ d0.fs.next ≤ d'.fs.next ∧ (∀ n, d'.fs.file (.fd n) = d0.fs.file (.fd n)) ∧
      ((∃ x, r = .ok x) → d'.fs.stray = d0.fs.stray)) ∨
    ¬ inode.Live ∧ ((∃ x, r = .ok x) ∧ Opened k f d0.fs d'.fs ∨
      (∃ err, r = .error err) ∧ Tidy d0.fs d'.fs) := by
  obtain ⟨_,d1,entered,rest⟩ := bindSome ok
  unfold enterInode at entered
  split at entered
  · rename_i live
    obtain ⟨_,d2,counted,closed⟩ := bindSome entered
    cases Option.some.inj counted
    obtain ⟨_,rfl⟩ := sysSome closed
    have tidy : Tidy d0.fs (close (.fd k) e d.fs).2 := openedClosed opened e
    refine Or.inl ⟨live,?_⟩
    rcases answerFs rest with ⟨answered,more⟩ | ⟨⟨err,rfl⟩,twice⟩
    · have all := trans_of Tidy tidy more
      exact ⟨all.next,all.file,fun _ => all.stray⟩
    · have again := closeGone k e (close (.fd k) e d.fs).2
      refine ⟨?_,fun n => ?_,fun ⟨x,wrong⟩ => by cases wrong⟩
      · rw [twice,closeNext]
        exact tidy.next
      · rw [twice]
        by_cases here : n = k
        · rw [here,fileNew d0.fs opened.new]
          exact again
        · exact (closeOther here e _).trans (tidy.file n)
  · rename_i dead
    have built := fsTidyBuild.inode _ _ _ _ _ e d () d1 entered
    refine Or.inr ⟨dead,?_⟩
    rcases answerFs rest with ⟨answered,more⟩ | ⟨failed,closed⟩
    · exact Or.inl ⟨answered,openedTidy (openedTidy opened built) more⟩
    · exact Or.inr ⟨failed,closed ▸ openedClosed (openedTidy opened built) e⟩

inductive LookupRan (parent : Ref) (name : FileName) (e : Env Call) (d : State) (dir : Inode)
    (r : Except Errno EntryParam) (d' : State) : Prop where
  | missed {m} (nothing : resolve e d.fs d.conf.srcDev dir name = none) (same : d' = {d with fs := m})
      (tidy : Tidy d.fs m)
  | refused {m f} (nothing : resolve e d.fs d.conf.srcDev dir name = none) (same : d' = {d with fs := m})
      (opened : Opened d.fs.next f d.fs m)
      (why : ∃ up p entry, d.fs.dirAt dir.fd = .ok (up,p) ∧
        d.fs.vol.tree.find (p ++ [name]) = some entry ∧ (d.fs.vol.dev ≠ d.conf.srcDev ∨ entry.ino = 1))
  | entered {m f attr c} (found : resolve e d.fs d.conf.srcDev dir name = some (.fd d.fs.next,attr))
      (opened : Opened d.fs.next f d.fs m) (ino : f.entry.ino = attr.ino)
      (there : foundAt d.fs dir.fd name = some f.entry)
      (key : c.key = (attr.ino,attr.dev)) (value : slotted d c.key = c.value)
      (here : (d.inodes.enter c.key {}).1.atAddr c.addr = some c)
      (rest : (enterInode parent name c.addr (.fd d.fs.next) attr c.value >>= fun _ =>
        answerAttr c.addr c.value.generation (.fd d.fs.next) attr) e
          {d with fs := m, inodes := (d.inodes.enter c.key {}).1} = some (r,d'))

theorem lookupSome {parent : Ref} {name : FileName} {e : Env Call} {d : State} {dir r d'}
    (known : d.inode parent = some dir) (ok : doLookup parent name e d = some (r,d')) :
    LookupRan parent name e d dir r d' := by
  obtain ⟨dir',d0,got,rest⟩ := bindSome ok
  obtain ⟨rfl,known',_⟩ := getInodeSome got
  cases known.symm.trans known'
  obtain ⟨opened,d1,opens,rest⟩ := bindSome rest
  obtain ⟨isOpened,rfl⟩ := sysSome opens
  rcases openPathCases .lookupOpen dir.fd name e d0.fs with ⟨err,same⟩ | ⟨up,p,entry,at_,there,same⟩
  · simp only [State.mount,State.setMount,same] at isOpened rest
    subst isOpened
    obtain ⟨_,rfl⟩ := pureSome rest
    exact .missed (by simp [resolve,same]) rfl (refl_of Tidy _)
  · have new : Opened d0.fs.next ⟨entry,some (up,name),.path⟩ d0.fs (d0.fs.install _) :=
      installOpened d0.fs _
    simp only [State.mount,State.setMount,same] at isOpened rest
    subst isOpened
    obtain ⟨stat,d2,stats,rest⟩ := bindSome rest
    obtain ⟨isStat,rfl⟩ := sysSome stats
    rw [fstatState] at rest
    simp only [State.mount,State.setMount] at isStat rest
    rcases fstatCases .lookupStat (.fd d0.fs.next) e (d0.fs.install ⟨entry,some (up,name),.path⟩) with
      ⟨err,failed⟩ | ⟨g,file,told⟩
    · rw [failed] at isStat
      subst isStat
      obtain ⟨_,d3,closed,last⟩ := bindSome rest
      obtain ⟨_,rfl⟩ := sysSome closed
      obtain ⟨_,rfl⟩ := pureSome last
      exact .missed (by simp [resolve,same,failed]) rfl (openedClosed new e)
    · cases (fileInstall d0.fs _).symm.trans file
      have attr : (d0.fs.install ⟨entry,some (up,name),.path⟩).vol.stat entry = d0.fs.vol.stat entry := rfl
      rw [told] at isStat
      rw [attr] at told isStat
      subst isStat
      obtain ⟨u,d3,now,rest⟩ := bindSome rest
      cases Option.some.inj now
      by_cases foreign : d0.fs.vol.dev ≠ d0.conf.srcDev
      · rw [if_pos (by exact foreign)] at rest
        obtain ⟨_,rfl⟩ := pureSome rest
        refine .refused ?_ rfl new ⟨up,p,entry,at_,there,Or.inl foreign⟩
        simp [resolve,same,told,show (d0.fs.vol.stat entry).dev = d0.fs.vol.dev from rfl,foreign]
      rw [if_neg (by exact foreign)] at rest
      by_cases reserved : entry.ino = 1
      · rw [if_pos (by exact reserved)] at rest
        obtain ⟨_,rfl⟩ := pureSome rest
        refine .refused ?_ rfl new ⟨up,p,entry,at_,there,Or.inr reserved⟩
        simp [resolve,same,told,show (d0.fs.vol.stat entry).ino = entry.ino from rfl,reserved]
      rw [if_neg (by exact reserved)] at rest
      have found : resolve e d0.fs d0.conf.srcDev dir name =
          some (.fd d0.fs.next,d0.fs.vol.stat entry) := by
        simp [resolve,same,told,show (d0.fs.vol.stat entry).dev = d0.fs.vol.dev from rfl,
          show (d0.fs.vol.stat entry).ino = entry.ino from rfl,not_not.mp foreign,reserved]
      obtain ⟨addr,d4,entered,rest⟩ := bindSome rest
      obtain ⟨c,isAddr,key,here,old⟩ := enterCell d0.inodes (entry.ino,d0.fs.vol.dev)
      obtain ⟨atAddr,rfl⟩ := Prod.mk.inj (Option.some.inj entered)
      obtain rfl : c.addr = addr := isAddr.symm.trans atAddr
      have value : slotted d0 c.key = c.value := key ▸ slottedCell old
      obtain ⟨u,d5,now,rest⟩ := bindSome rest
      cases Option.some.inj now
      have cell : ∀ m, State.inode {d0 with fs := m, inodes :=
          (d0.inodes.enter (entry.ino,d0.fs.vol.dev) {}).1} (.node c.addr) = some c.value :=
        fun m => inodeNode here
      simp only [show (d0.fs.vol.stat entry).ino = entry.ino from rfl,
        show (d0.fs.vol.stat entry).dev = d0.fs.vol.dev from rfl,cell] at rest
      exact .entered found new rfl ((foundAtPath at_).trans there) key value (key ▸ here) (key ▸ rest)

theorem lookedFs {parent : Ref} {name : FileName} {e : Env Call} {d : State} {dir r d'}
    (known : d.inode parent = some dir) (ok : doLookup parent name e d = some (r,d')) :
    LookedFs name e d dir r d' := by
  cases lookupSome known ok with
  | missed nothing same tidy =>
    subst same
    exact .missed nothing tidy
  | refused nothing same opened why =>
    subst same
    exact .refused nothing opened why
  | @entered m f attr c found opened ino there key value here rest =>
    rw [key] at value
    rcases enteredFs opened rest with
      ⟨live,next,file,stray⟩ | ⟨dead,⟨answered,opened⟩ | ⟨failed,tidy⟩⟩
    · exact .counted found (value ▸ live) next file stray
    · exact .stored found (value ▸ dead) answered opened ino there
    · exact .dropped found (value ▸ dead) failed tidy

end FsSide

end F3.Driver.Fds
