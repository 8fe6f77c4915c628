import F3.DriverMark
import F3.DriverTable
import F3.DriverRequests

/-! What the requests leave alone. A request that looks no name up changes the inodes of
the table one by one; a request that is not about names or attributes changes neither. -/
namespace F3.Driver
open Lib (Bytes Arena Cell Prog Act)
open Lib.Prog (keepsBind bindSome keepsPure pureSome keepsOnlyIf keepsIte keepsModify keepsGet keepsAbort)
open Lib.Posix

section Helpers
variable {rel : State → State → Prop} [IsPreorder State rel]

omit [IsPreorder State rel] in
theorem replyErrKeeps {α : Type} (replies : ∀ err, Prog.Keeps rel (reply (.err err))) (r : Except Errno α) :
    Prog.Keeps rel (replyErr r) := by
  cases r <;> exact replies _

theorem replyFirstKeeps (replies : ∀ err, Prog.Keeps rel (reply (.err err))) (r : Except Errno Unit) :
    Prog.Keeps rel (replyFirst r) := by
  cases r with
  | error err => exact replies _
  | ok _ => exact keepsPure ()

theorem unlinkBothKeeps {dir : Inode} {name : FileName}
    (fs : Prog.Keeps rel (sys .fs (unlinkAt (.unlink .fs) dir.fd name false)))
    (id : Prog.Keeps rel (sys .id (unlinkAt (.unlink .id) dir.idFd name false)))
    (replies : ∀ err, Prog.Keeps rel (reply (.err err))) : Prog.Keeps rel (unlinkBoth dir name) :=
  keepsBind fs fun first => keepsBind (replyFirstKeeps replies first) fun _ =>
    keepsBind id fun second => keepsBind (replyFirstKeeps replies second) fun _ => replies _

theorem releaseUnlinkedKeeps (closes : ∀ side slot, Prog.Keeps rel (sys side (close slot)))
    (gone : ∀ addr, Prog.Keeps rel (setInode (.node addr) fun i =>
      {i with fd := .enoent, idFd := .enoent, generation := i.generation + 1}))
    (e : EntryParam) : Prog.Keeps rel (releaseUnlinked e) := by
  unfold releaseUnlinked
  split
  · exact keepsAbort
  · refine keepsOnlyIf (keepsBind (getInodeKeeps _) fun inode => keepsOnlyIf ?_)
    exact keepsBind (closes .fs _) fun _ => keepsBind (closes .id _) fun _ => gone _

theorem replyCreateKeeps
    (opens : ∀ addr, Prog.Keeps rel (setInode (.node addr) fun i => {i with nopen := i.nopen + 1}))
    (replies : ∀ r, Prog.Keeps rel (reply r)) (e : EntryParam) (fh : Handle) :
    Prog.Keeps rel (replyCreate e fh) := by
  unfold replyCreate
  split
  · exact keepsAbort
  · exact keepsBind (getInodeKeeps _) fun _ => keepsBind (opens _) fun _ => replies _

omit [IsPreorder State rel] in
theorem forgetEntryKeeps (one : ∀ ino, Prog.Keeps rel (forgetOne ino 1)) (e : EntryParam) :
    Prog.Keeps rel (forgetEntry e) := by
  unfold forgetEntry
  split
  · exact keepsAbort
  · exact one _

theorem forgetAllKeeps (one : ∀ ino n, Prog.Keeps rel (forgetOne ino n)) (forgets : List (Ref × Nat)) :
    Prog.Keeps rel (forgetAll forgets) := by
  induction forgets with
  | nil => exact keepsPure ()
  | cons x rest ih => exact keepsBind (one x.1 x.2) fun _ => ih

theorem forgetKeeps {ino : Ref} {n : Nat}
    (counts : Prog.Keeps rel (setInode ino fun i => {i with nlookup := i.nlookup - n}))
    (closes : ∀ slot, Prog.Keeps rel (sys .fs (close slot)))
    (erases : ∀ (d : State) key, rel d {d with inodes := d.inodes.erase key}) : Prog.Keeps rel (forgetOne ino n) := by
  refine keepsBind (getInodeKeeps ino) fun inode => keepsIte keepsAbort
    (keepsBind counts fun _ => keepsOnlyIf (keepsBind keepsGet fun d => ?_))
  split
  · exact keepsPure ()
  · exact keepsBind (closes _) fun _ => keepsModify fun u => erases u _

theorem startKeeps {ino : Ref} (attrs : ∀ {attr size slot}, Prog.Keeps rel (sys .fs (f3GetAttr attr size slot)))
    (sizes : ∀ {slot}, Prog.Keeps rel (sys .fs (f3GetSizeXattr slot))) (sends : ∀ m, Prog.Keeps rel (send m))
    (sets : ∀ size, Prog.Keeps rel (setInode ino fun i => {i with targetSize := size})) (inode : Inode) :
    Prog.Keeps rel (startDownload ino inode) :=
  keepsBind attrs fun _ => keepsBind attrs fun _ => keepsBind (requestKeeps sends _ _ _) fun _ =>
    keepsBind sizes fun _ => sets _

theorem mknodIdKeeps {parent : Ref} {dir : Inode} {name : FileName}
    (makes : ∀ {kind link}, Prog.Keeps rel (sys .id (makeAt (.mknod .id) dir.idFd name kind link)))
    (isNew : Prog.Keeps rel (f3IsNewId .handler parent name)) (marks : ∀ side, Prog.Keeps rel (markDir side dir name))
    (kind : Kind) (link : Bytes) : Prog.Keeps rel (mknodId parent dir name kind link) := by
  unfold mknodId
  split
  · exact keepsAndThen makes fun _ => keepsBind isNew fun _ =>
      keepsBind (keepsOnlyIf (keepsBind (marks .fs) fun _ => marks .id)) fun _ => keepsPure _
  · exact makes
  · exact keepsPure _

theorem chooseKeeps {parent : Ref} {name : FileName} {fd idFd : Slot}
    (isNew : Prog.Keeps rel (f3IsNewId .handler parent name))
    (marks : ∀ {side address slot len}, Prog.Keeps rel (sys side (f3MarkAsId side address slot len)))
    (closes : Prog.Keeps rel (sys .fs (close fd))) (pairs : ∀ (d : State) new, rel d {d with pairs := new}) :
    Prog.Keeps rel (chooseCopy parent name fd idFd) :=
  keepsBind isNew fun _ => keepsIte (keepsBind keepsGet fun _ => keepsBind marks fun _ => keepsBind marks fun _ =>
    keepsBind (keepsModify fun d => pairs d _) fun _ => keepsBind closes fun _ => keepsPure _) (keepsPure _)

theorem sendfileKeeps (moves : ∀ (d : State) ino content, rel d {d with fs := d.fs.setContent ino content})
    (fsFd idFd : Slot) (fuel round offset : Nat) : Prog.Keeps rel (sendfileLoop fsFd idFd fuel round offset) := by
  induction fuel generalizing round offset with
  | zero => exact keepsPure _
  | succ fuel ih =>
    intro e d r d' ok
    simp only [sendfileLoop] at ok
    split at ok
    · cases Option.some.inj ok
      exact refl_of rel d
    · split at ok
      · cases Option.some.inj ok
        exact refl_of rel d
      · exact trans_of rel (moves d _ _) (ih _ _ e _ r d' ok)
    · cases Option.some.inj ok
      exact refl_of rel d

theorem makeIdFsKeeps {ino : Ref}
    (opens : ∀ {side slot}, Prog.Keeps rel (sys side (f3GetFullFd (.convertOpen side) slot .readWrite)))
    (moves : ∀ (d : State) ino content, rel d {d with fs := d.fs.setContent ino content})
    (cuts : ∀ {slot}, Prog.Keeps rel (sys .id (ftruncate .convertTruncate slot 0)))
    (sets : Prog.Keeps rel (setInode ino fun i => {i with isId := false}))
    (closes : ∀ {side slot}, Prog.Keeps rel (sys side (close slot))) : Prog.Keeps rel (f3MakeIdFs ino) := by
  refine keepsBind (getInodeKeeps ino) fun _ => keepsBind opens fun _ => keepsBind opens fun _ =>
    keepsBind keepsGet fun _ => keepsBind (sendfileKeeps moves _ _ _ _ _) fun copied => keepsBind ?_ fun _ =>
    keepsBind closes fun _ => keepsBind closes fun _ => keepsPure _
  cases copied with
  | error err => exact keepsPure _
  | ok _ => exact keepsBind cuts fun _ => keepsBind sets fun _ => keepsPure _

/- What the replies, the counters of an inode and the calls on contents keep; and the calls on names too. -/
structure KeepsData (rel : State → State → Prop) : Prop where
  replies : ∀ r, Prog.Keeps rel (reply r)
  counts : ∀ (ref : Ref) (nlookup nopen size targetSize : Inode → Nat), Prog.Keeps rel (setInode ref fun i =>
    {i with nlookup := nlookup i, nopen := nopen i, size := size i, targetSize := targetSize i})
  stats : ∀ {side c slot}, Prog.Keeps rel (sys side (fstat c slot))
  cuts : ∀ i size fi, Prog.Keeps rel (truncateCopy i size fi)
  writes : ∀ (fh : Handle) off data, Prog.Keeps rel (sys fh.side (writeAt .write fh.fd off data))

structure KeepsNames (rel : State → State → Prop) : Prop extends KeepsData rel where
  links : ∀ {side c slot dir name}, Prog.Keeps rel (sys side (linkAt c slot dir name))
  unlinks : ∀ {side c dir name rmdir}, Prog.Keeps rel (sys side (unlinkAt c dir name rmdir))
  renames : ∀ {side c dir name newdir newname}, Prog.Keeps rel (sys side (renameAt c dir name newdir newname))

namespace KeepsData
variable (data : KeepsData rel)
include data

theorem two {p q : Sys Call (Except Errno Unit)} {last : Except Errno Unit → Handler Unit}
    (fs : Prog.Keeps rel (sys .fs p)) (id : Prog.Keeps rel (sys .id q))
    (ends : ∀ r, Prog.Keeps rel (last r)) : Prog.Keeps rel (do
      let first ← sys .fs p
      replyFirst first
      let second ← sys .id q
      last second) :=
  keepsBind fs fun first => keepsBind (replyFirstKeeps (fun _ => data.replies _) first) fun _ => keepsBind id ends

omit [IsPreorder State rel] in
theorem replyErr {α : Type} (r : Except Errno α) : Prog.Keeps rel (replyErr r) :=
  replyErrKeeps (fun _ => data.replies _) r

theorem write (ino : Ref) (fh : Handle) (off : Nat) (bytes : Bytes) :
    Prog.Keeps rel (sfsWriteBuf ino fh off bytes) := by
  refine keepsBind (getInodeKeeps ino) fun _ => keepsBind (data.writes fh off bytes) fun r => ?_
  cases r with
  | error err => exact data.replies _
  | ok n =>
    exact keepsBind (keepsOnlyIf (data.counts ino (·.nlookup) (·.nopen) (fun _ => off + n) (·.targetSize)))
      fun _ => data.replies _

theorem openFile (attrs : ∀ {attr size slot}, Prog.Keeps rel (sys .fs (f3GetAttr attr size slot)))
    (sizes : ∀ {slot}, Prog.Keeps rel (sys .fs (f3GetSizeXattr slot))) (sends : ∀ m, Prog.Keeps rel (send m))
    (reopens : ∀ {side slot flags}, Prog.Keeps rel (sys side (reopen .openHandle slot flags))) (ino : Ref)
    (flags : Flags) : Prog.Keeps rel (sfsOpen ino flags) := by
  have starts := startKeeps attrs sizes sends fun size =>
    data.counts ino (·.nlookup) (·.nopen) (·.size) fun _ => size
  refine keepsBind (getInodeKeeps ino) fun inode => keepsBind keepsGet fun _ =>
    keepsBind (keepsOnlyIf (starts inode)) fun _ => keepsBind reopens fun r => ?_
  cases r with
  | error err => exact data.replies _
  | ok fd =>
    exact keepsBind (data.counts ino (·.nlookup) (·.nopen + 1) (·.size) (·.targetSize)) fun _ => data.replies _

theorem getattr (ino : Ref) : Prog.Keeps rel (sfsGetattr ino) := by
  refine keepsBind (getInodeKeeps ino) fun _ => keepsBind data.stats fun r => ?_
  cases r <;> exact data.replies _

theorem setattr (ino : Ref) (size : Nat) (fi : Option Handle) : Prog.Keeps rel (sfsSetattr ino size fi) := by
  refine keepsBind (getInodeKeeps ino) fun _ => keepsBind (data.cuts _ size fi) fun r => ?_
  cases r with
  | error err => exact data.replies _
  | ok _ => exact data.getattr ino

end KeepsData

namespace KeepsNames
variable (names : KeepsNames rel)
include names

theorem link (ino parent : Ref) (name : FileName) : Prog.Keeps rel (sfsLink ino parent name) := by
  refine keepsBind (getInodeKeeps ino) fun _ => keepsBind (getInodeKeeps parent) fun _ =>
    keepsBind (keepsAndThen names.links fun _ => keepsAndThen names.links fun _ => names.stats)
      fun made => ?_
  cases made with
  | error err => exact names.replies _
  | ok attr =>
    exact keepsBind (names.counts ino (·.nlookup + 1) (·.nopen) (·.size) (·.targetSize)) fun _ => names.replies _

theorem rmdir (parent : Ref) (name : FileName) : Prog.Keeps rel (sfsRmdir parent name) :=
  keepsBind (getInodeKeeps parent) fun _ => names.two names.unlinks names.unlinks names.replyErr

theorem rename (parent : Ref) (name : FileName) (newparent : Ref) (newname : FileName) (flags : Bool) :
    Prog.Keeps rel (sfsRename parent name newparent newname flags) :=
  keepsBind (getInodeKeeps parent) fun _ => keepsBind (getInodeKeeps newparent) fun _ =>
    keepsIte (names.replies _) (names.two names.renames names.renames names.replyErr)

theorem unlink (dir : Inode) (name : FileName) : Prog.Keeps rel (unlinkBoth dir name) :=
  unlinkBothKeeps names.unlinks names.unlinks fun _ => names.replies _

end KeepsNames

end Helpers

def Tabled (R : Inode → Inode → Prop) (d d' : State) : Prop :=
  ∀ c ∈ d'.inodes.cells, ∃ b ∈ d.inodes.cells, b.key = c.key ∧ R b.value c.value

def Minor (R : Inode → Inode → Prop) : Prop := ∀ i nlookup nopen size targetSize,
  R i {i with nlookup := nlookup, nopen := nopen, size := size, targetSize := targetSize}

section Table
variable {R : Inode → Inode → Prop} [IsPreorder Inode R]

instance : IsPreorder State (Tabled R) where
  refl _ := fun c mem => ⟨c,mem,rfl,refl_of R c.value⟩
  trans _ _ _ one two := by
    intro c mem
    obtain ⟨b,memB,keyB,stepB⟩ := two c mem
    obtain ⟨a,memA,keyA,stepA⟩ := one b memB
    exact ⟨a,memA,keyA.trans keyB,trans_of R stepA stepB⟩

theorem sameTabled {d d' : State} (same : d'.inodes = d.inodes) : Tabled R d d' := by
  unfold Tabled
  rw [same]
  exact fun c mem => ⟨c,mem,rfl,refl_of R c.value⟩

theorem sysTabled {α : Type} (side : Side) (p : Sys Call α) : Prog.Keeps (Tabled R) (sys side p) := by
  intro e d a d' ok
  rw [(sysSome ok).2]
  exact sameTabled (setMountInodes d side _)

theorem setInodeTabled {f : Inode → Inode} (ref : Ref) (each : ∀ i, R i (f i)) :
    Prog.Keeps (Tabled R) (setInode ref f) := by
  refine keepsModify fun d => ?_
  cases ref with
  | root => exact sameTabled rfl
  | node a =>
    exact Arena.allModify (fun c mem _ => ⟨c,mem,rfl,refl_of R c.value⟩)
      (fun c mem _ => ⟨c,mem,rfl,each c.value⟩)

theorem replyTabled (r : Reply) : Prog.Keeps (Tabled R) (reply r) :=
  keepsModify fun _ => sameTabled rfl

theorem sendTabled (m : Message) : Prog.Keeps (Tabled R) (send m) :=
  keepsModify fun _ => sameTabled rfl

theorem tabledNames (minor : Minor R) : KeepsNames (Tabled R) where
  replies := replyTabled
  counts ref _ _ _ _ := setInodeTabled ref fun i => minor i _ _ _ _
  stats := sysTabled _ _
  cuts i size fi := by cases fi <;> exact sysTabled _ _
  writes fh _ _ := sysTabled fh.side _
  links := sysTabled _ _
  unlinks := sysTabled _ _
  renames := sysTabled _ _

theorem setxattrTabled (minor : Minor R) (ino : Ref) (name value : Bytes) (flag : SetFlag) :
    Prog.Keeps (Tabled R) (sfsSetxattr ino name value flag) :=
  keepsBind (getInodeKeeps ino) fun _ =>
    (tabledNames minor).two (sysTabled .fs _) (sysTabled .id _) (tabledNames minor).replyErr

theorem forgetOneTabled (minor : Minor R) (ino : Ref) (n : Nat) : Prog.Keeps (Tabled R) (forgetOne ino n) :=
  forgetKeeps (setInodeTabled ino fun i => minor i _ i.nopen i.size i.targetSize) (fun _ => sysTabled .fs _)
    fun _ _ x mem => ⟨x,(List.mem_filter.mp mem).1,rfl,refl_of R x.value⟩

theorem forgetEntryTabled (minor : Minor R) (e : EntryParam) :
    Prog.Keeps (Tabled R) (forgetEntry e) := forgetEntryKeeps (fun ino => forgetOneTabled minor ino 1) e

theorem forgetAllTabled (minor : Minor R) (forgets : List (Ref × Nat)) :
    Prog.Keeps (Tabled R) (forgetAll forgets) := forgetAllKeeps (forgetOneTabled minor) forgets

theorem releaseUnlinkedTabled (gone : ∀ i : Inode,
      R i {i with fd := .enoent, idFd := .enoent, generation := i.generation + 1})
    (e : EntryParam) : Prog.Keeps (Tabled R) (releaseUnlinked e) :=
  releaseUnlinkedKeeps (fun side _ => sysTabled side _) (fun _ => setInodeTabled _ gone) e

theorem replyCreateTabled (minor : Minor R) (e : EntryParam) (fh : Handle) :
    Prog.Keeps (Tabled R) (replyCreate e fh) :=
  replyCreateKeeps (fun _ => setInodeTabled _ fun i => minor i i.nlookup _ i.size i.targetSize) replyTabled e fh

theorem openTabled (minor : Minor R) (ino : Ref) (flags : Flags) : Prog.Keeps (Tabled R) (sfsOpen ino flags) :=
  (tabledNames minor).openFile (sysTabled .fs _) (sysTabled .fs _) sendTabled (sysTabled _ _) ino flags

theorem releaseTabled (minor : Minor R) (ino : Ref) (fh : Handle) :
    Prog.Keeps (Tabled R) (sfsRelease ino fh) :=
  keepsBind (getInodeKeeps ino) fun _ => keepsBind keepsGet fun _ =>
    keepsBind (keepsOnlyIf (sysTabled .fs _)) fun _ =>
    keepsBind (keepsOnlyIf (keepsBind (sysTabled .fs _) fun _ => sendTabled _)) fun _ =>
    keepsBind (setInodeTabled ino fun i => minor i i.nlookup _ i.size i.targetSize) fun _ =>
    keepsBind (sysTabled fh.side _) fun _ => replyTabled _

theorem sendfileContent {fsFd idFd fuel round offset e} {d : State} {r d'}
    (ok : sendfileLoop fsFd idFd fuel round offset e d = some (r,d')) :
    ∃ m, d' = {d with fs := m} ∧ ∀ attr, Alike attr d.fs m := by
  induction fuel generalizing round offset d with
  | zero => exact ⟨d.fs,(pureSome ok).2,fun attr => refl_of (Alike attr) d.fs⟩
  | succ fuel ih =>
    simp only [sendfileLoop] at ok
    split at ok
    · cases Option.some.inj ok
      exact ⟨_,rfl,fun attr => refl_of (Alike attr) _⟩
    · split at ok
      · cases Option.some.inj ok
        exact ⟨_,rfl,fun attr => refl_of (Alike attr) _⟩
      · obtain ⟨m,same,alike⟩ := ih ok
        exact ⟨m,same,fun attr => trans_of (Alike attr) (setContentAlike d.fs _ _ attr) (alike attr)⟩
    · cases Option.some.inj ok
      exact ⟨_,rfl,fun attr => refl_of (Alike attr) _⟩

theorem removexattrTabled (converted : ∀ i : Inode, R i {i with isId := false}) (ino : Ref)
    (name : Bytes) : Prog.Keeps (Tabled R) (sfsRemovexattr ino name) := by
  refine keepsBind (getInodeKeeps ino) fun _ => keepsBind (sysTabled .fs _) fun first => ?_
  refine keepsBind (replyFirstKeeps (fun _ => replyTabled _) first) fun _ => keepsBind (sysTabled .id _) fun second => ?_
  refine keepsBind (replyFirstKeeps (fun _ => replyTabled _) second) fun _ => keepsBind ?_ fun _ => replyTabled _
  exact keepsIte (makeIdFsKeeps (sysTabled _ _) (fun _ _ _ => sameTabled rfl) (sysTabled .id _)
    (setInodeTabled ino converted) (sysTabled _ _)) (keepsPure _)

end Table

structure Named (attr : Bytes) (d d' : State) : Prop where
  fs : Alike attr d.fs d'.fs
  id : Alike attr d.id d'.id
  conf : d'.conf = d.conf
  pairs : d'.pairs = d.pairs

instance (attr : Bytes) : IsPreorder State (Named attr) where
  refl d := ⟨refl_of (Alike attr) d.fs,refl_of (Alike attr) d.id,rfl,rfl⟩
  trans _ _ _ one two := ⟨trans_of (Alike attr) one.fs two.fs,trans_of (Alike attr) one.id two.id,
    two.conf.trans one.conf,two.pairs.trans one.pairs⟩

section Names
variable {attr : Bytes}

theorem sysNamed {α : Type} (side : Side) {p : Sys Call α} (alike : Act.Keeps (Alike attr) p) :
    Prog.Keeps (Named attr) (sys side p) := by
  intro e d a d' ok
  rw [(sysSome ok).2]
  cases side with
  | fs => exact ⟨alike e d.fs,refl_of (Alike attr) d.id,rfl,rfl⟩
  | id => exact ⟨refl_of (Alike attr) d.fs,alike e d.id,rfl,rfl⟩

theorem quietNamed {α : Type} (side : Side) {p : Sys Call α} (quiet : Act.Keeps Quiet p) :
    Prog.Keeps (Named attr) (sys side p) := sysNamed side (keepsAlike quiet attr)

theorem besideNamed {f : State → State} (fs : ∀ d, (f d).fs = d.fs) (id : ∀ d, (f d).id = d.id)
    (conf : ∀ d, (f d).conf = d.conf) (pairs : ∀ d, (f d).pairs = d.pairs) :
    Prog.Keeps (Named attr) (Prog.modify f : Handler Unit) := by
  refine keepsModify fun d => ⟨?_,?_,conf d,pairs d⟩
  · rw [fs]
    exact refl_of (Alike attr) d.fs
  · rw [id]
    exact refl_of (Alike attr) d.id

theorem setInodeNamed (ref : Ref) (f : Inode → Inode) : Prog.Keeps (Named attr) (setInode ref f) := by
  cases ref <;> exact besideNamed (fun _ => rfl) (fun _ => rfl) (fun _ => rfl) (fun _ => rfl)

theorem replyNamed (r : Reply) : Prog.Keeps (Named attr) (reply r) :=
  besideNamed (fun _ => rfl) (fun _ => rfl) (fun _ => rfl) (fun _ => rfl)

theorem sendNamed (m : Message) : Prog.Keeps (Named attr) (send m) :=
  besideNamed (fun _ => rfl) (fun _ => rfl) (fun _ => rfl) (fun _ => rfl)

theorem namedData : KeepsData (Named attr) where
  replies := replyNamed
  counts ref _ _ _ _ := setInodeNamed ref _
  stats := quietNamed _ (fstatQuiet _ _)
  cuts i size fi := by
    cases fi with
    | none => exact sysNamed _ (truncateAtAlike _ _ _ attr)
    | some fh => exact sysNamed _ (ftruncateAlike _ _ _ attr)
  writes fh off data := sysNamed fh.side (writeAtKeeps (fun _ => pwriteAtAlike _ _ _ _ attr) off)

theorem forgetOneNamed (ino : Ref) (n : Nat) : Prog.Keeps (Named attr) (forgetOne ino n) :=
  forgetKeeps (setInodeNamed ino _) (fun _ => quietNamed .fs (closeQuiet _))
    fun d _ => ⟨refl_of (Alike attr) d.fs,refl_of (Alike attr) d.id,rfl,rfl⟩

theorem forgetEntryNamed (e : EntryParam) : Prog.Keeps (Named attr) (forgetEntry e) :=
  forgetEntryKeeps (fun ino => forgetOneNamed ino 1) e

theorem forgetAllNamed (forgets : List (Ref × Nat)) : Prog.Keeps (Named attr) (forgetAll forgets) :=
  forgetAllKeeps forgetOneNamed forgets

theorem replyCreateNamed (e : EntryParam) (fh : Handle) : Prog.Keeps (Named attr) (replyCreate e fh) :=
  replyCreateKeeps (fun _ => setInodeNamed _ _) replyNamed e fh

theorem openNamed (ino : Ref) (flags : Flags) : Prog.Keeps (Named attr) (sfsOpen ino flags) :=
  namedData.openFile (quietNamed .fs (f3GetAttrQuiet _ _ _)) (quietNamed .fs (f3GetSizeXattrQuiet _)) sendNamed
    (sysNamed _ (reopenAlike _ _ _ attr)) ino flags

theorem fsetxattrAlike (c : Call) (slot : Slot) {name : Bytes} (value : Bytes) (other : attr ≠ name) :
    Act.Keeps (Alike attr) (fsetxattr c slot name value) := by
  intro e m
  rcases fsetxattrCases c slot name value e m with ⟨err,same⟩ | ⟨f,_,_,same⟩
  · rw [same]
    exact refl_of (Alike attr) m
  · rw [same]
    exact setAttrAlike m _ _ other

theorem releaseNamed (other : attr ≠ f3Size) (ino : Ref) (fh : Handle) :
    Prog.Keeps (Named attr) (sfsRelease ino fh) := by
  refine keepsBind (getInodeKeeps ino) fun inode => keepsBind keepsGet fun _ => ?_
  refine keepsBind (keepsOnlyIf (sysNamed .fs ?_)) fun _ => ?_
  · refine Act.keepsBind (reopenAlike _ _ _ attr) fun r => ?_
    cases r with
    | error err => exact Act.keepsPure ()
    | ok newfd =>
      exact Act.keepsBind (fsetxattrAlike _ newfd _ other) fun _ => keepsAlike (closeQuiet newfd) attr
  · exact keepsBind (keepsOnlyIf (keepsBind (quietNamed .fs (f3GetAttrQuiet _ _ _))
        fun _ => sendNamed _)) fun _ =>
      keepsBind (setInodeNamed ino _) fun _ =>
      keepsBind (quietNamed fh.side (closeQuiet _)) fun _ => replyNamed _

theorem setxattrNamed {name : Bytes} (other : attr ≠ name) (ino : Ref) (value : Bytes)
    (flag : SetFlag) : Prog.Keeps (Named attr) (sfsSetxattr ino name value flag) := by
  have sets : ∀ c slot, Act.Keeps (Alike attr) (setxattrAt (χ := Call) c slot name value flag) := by
    intro c slot e m
    rcases setxattrAtCases c slot name value flag e m with ⟨err,same⟩ | ⟨f,_,same⟩
    · rw [same]
      exact refl_of (Alike attr) m
    · rw [same]
      exact setAttrAlike m _ _ other
  exact keepsBind (getInodeKeeps ino) fun _ =>
    namedData.two (sysNamed .fs (sets _ _)) (sysNamed .id (sets _ _)) namedData.replyErr

theorem makeIdFsNamed (ino : Ref) : Prog.Keeps (Named attr) (f3MakeIdFs ino) :=
  makeIdFsKeeps (quietNamed _ (reopenQuiet _ _ _))
    (fun d _ _ => ⟨setContentAlike d.fs _ _ attr,refl_of (Alike attr) d.id,rfl,rfl⟩)
    (sysNamed .id (ftruncateAlike _ _ _ attr)) (setInodeNamed ino _) (quietNamed _ (closeQuiet _))

theorem removexattrNamed {name : Bytes} (other : attr ≠ name) (ino : Ref) :
    Prog.Keeps (Named attr) (sfsRemovexattr ino name) := by
  have removes : ∀ c slot, Act.Keeps (Alike attr) (removexattrAt (χ := Call) c slot name) := by
    intro c slot e m
    rcases removexattrAtCases c slot name e m with ⟨err,same⟩ | ⟨f,value,_,_,same⟩
    · rw [same]
      exact refl_of (Alike attr) m
    · rw [same]
      exact setAttrAlike m _ _ other
  refine keepsBind (getInodeKeeps ino) fun _ =>
    namedData.two (sysNamed .fs (removes _ _)) (sysNamed .id (removes _ _)) fun second => ?_
  exact keepsBind (replyFirstKeeps (fun _ => replyNamed _) second) fun _ =>
    keepsBind (keepsIte (makeIdFsNamed ino) (keepsPure _)) fun _ => replyNamed _

end Names

theorem replySome {r e} {d d' : State} (ok : reply r e d = some ((),d')) :
    d' = {d with replies := d.replies ++ [r]} := (Prod.mk.inj (Option.some.inj ok)).2.symm

theorem replyFirstSome {r e} {d d' : State} (ok : replyFirst r e d = some ((),d')) :
    ∃ replies, d' = {d with replies := replies} := by
  cases r with
  | ok _ => exact ⟨d.replies,(pureSome ok).2⟩
  | error err => exact ⟨_,replySome ok⟩

theorem replyErrSome {α : Type} {r : Except Errno α} {e} {d d' : State}
    (ok : replyErr r e d = some ((),d')) : ∃ replies, d' = {d with replies := replies} := by
  cases r <;> exact ⟨_,replySome ok⟩

structure Both (fsCall idCall : Sys Call (Except Errno Unit)) (e : Env Call) (d d' : State) : Prop where
  fs : d'.fs = (fsCall e d.fs).2
  id : d'.id = (idCall e d.id).2
  conf : d'.conf = d.conf
  pairs : d'.pairs = d.pairs

theorem twoSome {fsCall idCall : Sys Call (Except Errno Unit)} {last : Except Errno Unit → Handler Unit}
    {e} {d d' : State} (ok : (do
      let first ← sys .fs fsCall
      replyFirst first
      let second ← sys .id idCall
      last second) e d = some ((),d')) : ∃ r replies,
    last r e {d with fs := (fsCall e d.fs).2, id := (idCall e d.id).2, replies := replies} = some ((),d') := by
  obtain ⟨first,d1,one,ok⟩ := bindSome ok
  obtain ⟨_,d2,said,ok⟩ := bindSome ok
  obtain ⟨second,d3,two,ok⟩ := bindSome ok
  obtain ⟨_,rfl⟩ := sysSome one
  obtain ⟨replies,rfl⟩ := replyFirstSome said
  obtain ⟨_,rfl⟩ := sysSome two
  exact ⟨second,replies,ok⟩

theorem bothSome {fsCall idCall : Sys Call (Except Errno Unit)}
    (last : Except Errno Unit → Handler Unit) {e} {d d' : State}
    (ends : ∀ {r d d'}, last r e d = some ((),d') → ∃ replies, d' = {d with replies := replies})
    (ok : (do
      let first ← sys .fs fsCall
      replyFirst first
      let second ← sys .id idCall
      last second) e d = some ((),d')) : Both fsCall idCall e d d' := by
  obtain ⟨_,_,last⟩ := twoSome ok
  obtain ⟨_,rfl⟩ := ends last
  exact ⟨rfl,rfl,rfl,rfl⟩

theorem rmdirSome {parent name e} {d d' : State} (ok : sfsRmdir parent name e d = some ((),d')) :
    ∃ dir, d.inode parent = some dir ∧ Both (unlinkAt (.rmdir .fs) dir.fd name true)
      (unlinkAt (.rmdir .id) dir.idFd name true) e d d' := by
  obtain ⟨dir,d1,first,rest⟩ := bindSome ok
  obtain ⟨rfl,known,_⟩ := getInodeSome first
  exact ⟨dir,known,bothSome replyErr replyErrSome rest⟩

theorem unlinkBothSome {dir : Inode} {name e} {d d' : State}
    (ok : unlinkBoth dir name e d = some ((),d')) : Both (unlinkAt (.unlink .fs) dir.fd name false)
      (unlinkAt (.unlink .id) dir.idFd name false) e d d' := by
  refine bothSome (fun second => replyFirst second >>= fun _ => reply (.err none)) ?_ ok
  intro r d d' done
  obtain ⟨_,d1,said,done⟩ := bindSome done
  obtain ⟨_,rfl⟩ := replyFirstSome said
  rw [replySome done]
  exact ⟨_,rfl⟩

theorem renameSome {parent name newparent newname flags e} {d d' : State}
    (ok : sfsRename parent name newparent newname flags e d = some ((),d')) :
    ∃ dir ndir, d.inode parent = some dir ∧ d.inode newparent = some ndir ∧
      ((∃ replies, d' = {d with replies := replies}) ∨ flags = false ∧
        Both (renameAt (.rename .fs) dir.fd name ndir.fd newname)
          (renameAt (.rename .id) dir.idFd name ndir.idFd newname) e d d') := by
  obtain ⟨dir,d1,first,rest⟩ := bindSome ok
  obtain ⟨rfl,known,_⟩ := getInodeSome first
  obtain ⟨ndir,d2,second,body⟩ := bindSome rest
  obtain ⟨rfl,known',_⟩ := getInodeSome second
  refine ⟨dir,ndir,known,known',?_⟩
  split at body
  · exact Or.inl ⟨_,replySome body⟩
  · rename_i none
    exact Or.inr ⟨by simpa using none,bothSome replyErr replyErrSome body⟩

theorem linkSome {ino parent name e} {d d' : State} (ok : sfsLink ino parent name e d = some ((),d')) :
    ∃ inode dir, d.inode ino = some inode ∧ d.inode parent = some dir ∧
      d'.conf = d.conf ∧ d'.pairs = d.pairs ∧
      d'.fs = (linkAt (.link .fs) inode.fd dir.fd name e d.fs).2 ∧
      (d'.id = d.id ∨ (linkAt (.link .fs) inode.fd dir.fd name e d.fs).1 = .ok () ∧
        d'.id = (linkAt (.link .id) inode.idFd dir.idFd name e d.id).2) := by
  obtain ⟨inode,d1,first,rest⟩ := bindSome ok
  obtain ⟨rfl,known,_⟩ := getInodeSome first
  obtain ⟨dir,d2,second,body⟩ := bindSome rest
  obtain ⟨rfl,known',_⟩ := getInodeSome second
  refine ⟨inode,dir,known,known',?_⟩
  obtain ⟨made,d3,calls,last⟩ := bindSome body
  have tail : d'.conf = d3.conf ∧ d'.pairs = d3.pairs ∧ d'.fs = d3.fs ∧ d'.id = d3.id := by
    cases made with
    | error err =>
      rw [replySome last]
      exact ⟨rfl,rfl,rfl,rfl⟩
    | ok attr =>
      obtain ⟨_,d4,counted,last⟩ := bindSome last
      rw [replySome last]
      cases Option.some.inj counted
      cases ino <;> exact ⟨rfl,rfl,rfl,rfl⟩
  obtain ⟨conf,pairs,fs,id⟩ := tail
  rw [conf,pairs,fs,id]
  obtain ⟨r,d4,one,calls⟩ := bindSome calls
  obtain ⟨linked,rfl⟩ := sysSome one
  cases r with
  | error err =>
    rw [(pureSome calls).2]
    exact ⟨rfl,rfl,rfl,Or.inl rfl⟩
  | ok _ =>
    obtain ⟨r,d5,two,calls⟩ := bindSome calls
    obtain ⟨_,rfl⟩ := sysSome two
    cases r with
    | error err =>
      rw [(pureSome calls).2]
      exact ⟨rfl,rfl,rfl,Or.inr ⟨linked.symm,rfl⟩⟩
    | ok _ =>
      obtain ⟨_,rfl⟩ := sysSome calls
      rw [fstatState]
      cases inode.side <;> exact ⟨rfl,rfl,rfl,Or.inr ⟨linked.symm,rfl⟩⟩

structure MarkedBoth (fd idFd : Slot) (e : Env Call) (d d' : State) : Prop where
  fs : d'.fs = (close fd e (f3MarkAsId .fs d.conf.address fd d.conf.source.length e d.fs).2).2
  id : d'.id = (f3MarkAsId .id d.conf.address idFd d.conf.idroot.length e d.id).2
  pairs : d'.pairs = (match (f3MarkAsId .fs d.conf.address fd d.conf.source.length e d.fs).2.file fd,
      d'.id.file idFd with
    | some f,some g => [(f.entry.ino,g.entry.ino)]
    | _,_ => []) ++ d.pairs
  inodes : d'.inodes = d.inodes
  root : d'.root = d.root
  conf : d'.conf = d.conf

theorem chooseSome {parent name fd idFd e} {d : State} {fh d'}
    (ok : chooseCopy parent name fd idFd e d = some (fh,d')) : ∃ b d1,
      f3IsNewId .handler parent name e d = some (b,d1) ∧
      (b = false ∧ d' = d1 ∨ b = true ∧ MarkedBoth fd idFd e d1 d') := by
  obtain ⟨b,d1,asked,rest⟩ := bindSome ok
  refine ⟨b,d1,asked,?_⟩
  cases b with
  | false => exact Or.inl ⟨rfl,(pureSome rest).2⟩
  | true =>
    obtain ⟨_,_,got,rest⟩ := bindSome rest
    cases Option.some.inj got
    obtain ⟨_,_,marked,rest⟩ := bindSome rest
    obtain ⟨_,_,markedId,rest⟩ := bindSome rest
    obtain ⟨_,_,paired,rest⟩ := bindSome rest
    obtain ⟨_,_,closed,rest⟩ := bindSome rest
    obtain ⟨_,rfl⟩ := sysSome marked
    obtain ⟨_,rfl⟩ := sysSome markedId
    cases Option.some.inj paired
    obtain ⟨_,rfl⟩ := sysSome closed
    obtain ⟨_,rfl⟩ := pureSome rest
    exact Or.inr ⟨rfl,⟨rfl,rfl,rfl,rfl,rfl,rfl⟩⟩

theorem markDirRan {side : Side} {dir : Inode} {name e} {d d' : State}
    (ok : markDir side dir name e d = some ((),d')) :
    let opened := openPath (.mknodOpen side) (dir.copy side) name e (d.mount side)
    d' = d.setMount side (close (slotOf opened.1) e (f3MarkAsId side d.conf.address (slotOf opened.1)
      (d.conf.rootDir side).length e opened.2).2).2 := by
  obtain ⟨_,_,got,ok⟩ := bindSome ok
  cases Option.some.inj got
  obtain ⟨r,_,opened,ok⟩ := bindSome ok
  obtain ⟨_,_,marked,ok⟩ := bindSome ok
  obtain ⟨rfl,rfl⟩ := sysSome opened
  obtain ⟨_,rfl⟩ := sysSome marked
  obtain ⟨_,rfl⟩ := sysSome ok
  simp only [setMountMount,setMountTwice]

theorem markDirSome {side : Side} {dir : Inode} {name e} {d d' : State}
    (ok : markDir side dir name e d = some ((),d')) : ∃ m, d' = d.setMount side m ∧
      (Quiet (d.mount side) m ∨ ∃ up p entry m1, (d.mount side).dirAt (dir.copy side) = .ok (up,p) ∧
        (d.mount side).vol.tree.find (p ++ [name]) = some entry ∧
        MarkedTo d.conf.address (.fd (d.mount side).next) (d.conf.rootDir side).length
          ((d.mount side).install ⟨entry,some (up,name),.path⟩) m1 ∧ Quiet m1 m) := by
  refine ⟨_,markDirRan ok,?_⟩
  rcases openPathCases (.mknodOpen side) (dir.copy side) name e (d.mount side) with
    ⟨err,same⟩ | ⟨up,p,entry,at_,found,same⟩ <;> rw [same]
  · have marks := markedTo side d.conf.address .closed (d.conf.rootDir side).length e (d.mount side)
    have quiet : Quiet (d.mount side)
        (f3MarkAsId side d.conf.address .closed (d.conf.rootDir side).length e (d.mount side)).2 := by
      cases marks with
      | none quiet => exact quiet
      | id known _ => contradiction
      | servers known _ => contradiction
      | path known _ _ _ _ => contradiction
    exact Or.inl (trans_of Quiet quiet (closeQuiet _ _ _))
  · exact Or.inr ⟨up,p,entry,_,at_,found,markedTo side _ _ _ e _,closeQuiet _ _ _⟩

inductive MknodRan (parent : Ref) (name : FileName) (kind : Kind) (link : Bytes) (dir : Inode)
    (e : Env Call) (d d' : State) : Prop where
  | noFs {replies} (same : d' = {d with replies := replies})
  | noId {m err d1 replies} (made : makeAt (.mknod .fs) dir.fd name kind link e d.fs = (.ok (),m))
      (failed : mknodId parent dir name kind link e {d with fs := m} = some (.error err,d1))
      (same : d' = {d1 with replies := replies})
  | looked {m d1 r d2 replies} (made : makeAt (.mknod .fs) dir.fd name kind link e d.fs = (.ok (),m))
      (copied : mknodId parent dir name kind link e {d with fs := m} = some (.ok (),d1))
      (lookup : doLookup parent name e d1 = some (r,d2)) (same : d' = {d2 with replies := replies})

theorem mknodSome {parent name kind link e} {d d' : State}
    (ok : mknodSymlink parent name kind link e d = some ((),d')) :
    ∃ dir, d.inode parent = some dir ∧ MknodRan parent name kind link dir e d d' := by
  obtain ⟨dir,d0,first,rest⟩ := bindSome ok
  obtain ⟨rfl,known,_⟩ := getInodeSome first
  refine ⟨dir,known,?_⟩
  obtain ⟨answer,u,calls,last⟩ := bindSome rest
  have said : ∃ replies, d' = {u with replies := replies} := by
    cases answer <;> exact ⟨_,replySome last⟩
  obtain ⟨replies,same⟩ := said
  obtain ⟨r,d1,made,calls⟩ := bindSome calls
  rcases call : makeAt (.mknod .fs) dir.fd name kind link e d0.fs with ⟨result,m⟩
  obtain ⟨here,rfl⟩ := sysSome made
  simp only [State.mount,State.setMount,call] at here calls
  cases here
  cases r with
  | error err =>
    have unchanged : m = d0.fs := by
      rcases makeAtCases (.mknod .fs) dir.fd name kind link e d0.fs with ⟨err,failed⟩ | ⟨_,_,_,_,_,failed⟩
      · rw [call] at failed
        exact (Prod.mk.inj failed).2
      · rw [call] at failed
        cases failed
    rw [(pureSome calls).2,unchanged] at same
    exact .noFs same
  | ok _ =>
    obtain ⟨r,d2,copied,calls⟩ := bindSome calls
    cases r with
    | error err =>
      rw [(pureSome calls).2] at same
      exact .noId call copied same
    | ok _ => exact .looked call copied calls same

def finishCreate (fh : Handle) : Except Errno EntryParam → Handler Unit
  | .error e => reply (.err (some e))
  | .ok e => replyCreate e fh

theorem replyCreateSome {x : EntryParam} {fh : Handle} {e} {d t : State}
    (ran : replyCreate x fh e d = some ((),t)) :
    t.fs = d.fs ∧ t.id = d.id ∧ t.replies = d.replies ++ [.create x fh] := by
  unfold replyCreate at ran
  cases ino : x.ino with
  | none => simp [ino,Prog.abort] at ran
  | some addr =>
    simp only [ino] at ran
    obtain ⟨i,u,first,rest⟩ := bindSome ran
    obtain ⟨rfl,_⟩ := getInodeSome first
    cases Option.some.inj rest
    exact ⟨rfl,rfl,rfl⟩

inductive CreateRan (parent : Ref) (name : FileName) (flags : Flags) (dir : Inode) (e : Env Call)
    (d d' : State) : Prop where
  | noFs {err} (same : d' = {d with replies := d.replies ++ [.err (some err)]})
  | noId {fd m err} (opened : openCreate (.create .fs) dir.fd name flags e d.fs = (.ok fd,m))
      (failed : ∃ err, openCreate (.create .id) dir.idFd name flags e d.id = (.error err,d.id))
      (same : d' = {d with fs := m, replies := d.replies ++ [.err (some err)]})
  | chosen {fd m idFd n fh d1 r d2}
      (opened : openCreate (.create .fs) dir.fd name flags e d.fs = (.ok fd,m))
      (openedId : openCreate (.create .id) dir.idFd name flags e d.id = (.ok idFd,n))
      (chosen : chooseCopy parent name fd idFd e {d with fs := m, id := n} = some (fh,d1))
      (lookup : doLookup parent name e d1 = some (r,d2))
      (finish : finishCreate fh r e d2 = some ((),d'))

theorem openCreateError {c : Call} {dir : Slot} {name flags e} {m : Mount Call} {err m'}
    (failed : openCreate c dir name flags e m = (.error err,m')) : m' = m := by
  rcases openCreateCases c dir name flags e m with ⟨err,same⟩ | ⟨_,_,_,_,_,_,same⟩ | ⟨_,_,_,_,_,same⟩ <;>
    rw [failed] at same <;> cases same
  rfl

theorem createSome {parent name flags e} {d d' : State}
    (ok : sfsCreate parent name flags e d = some ((),d')) :
    ∃ dir, d.inode parent = some dir ∧ CreateRan parent name flags dir e d d' := by
  obtain ⟨dir,d0,first,rest⟩ := bindSome ok
  obtain ⟨rfl,known,_⟩ := getInodeSome first
  refine ⟨dir,known,?_⟩
  obtain ⟨r,d1,opened,body⟩ := bindSome rest
  rcases call : openCreate (.create .fs) dir.fd name flags e d0.fs with ⟨result,m⟩
  obtain ⟨here,rfl⟩ := sysSome opened
  simp only [State.mount,call] at here body
  cases here
  cases r with
  | error err =>
    cases openCreateError call
    exact .noFs (replySome body)
  | ok fd =>
    obtain ⟨r,d2,openedId,body⟩ := bindSome body
    rcases callId : openCreate (.create .id) dir.idFd name flags e d0.id with ⟨result,n⟩
    obtain ⟨here,rfl⟩ := sysSome openedId
    simp only [State.mount,State.setMount,callId] at here body
    cases here
    cases r with
    | error err =>
      cases openCreateError callId
      exact .noId call ⟨err,callId⟩ (replySome body)
    | ok idFd =>
      obtain ⟨fh,d3,chosen,body⟩ := bindSome body
      obtain ⟨r,d4,lookup,finish⟩ := bindSome body
      exact .chosen call callId chosen lookup (by cases r <;> exact finish)

def HeldFs (bound : Fd) (d d' : State) : Prop := bound ≤ d.fs.next → Held bound d.fs d'.fs

section Held
variable {bound : Fd}

instance : IsPreorder State (HeldFs bound) where
  refl d := fun _ => refl_of (Held bound) d.fs
  trans _ _ _ one two := fun below =>
    trans_of (Held bound) (one below) (two (below.trans (one below).next))

theorem sysFsHeld {α : Type} {p : Sys Call α} (held : ∀ e m, Held m.next m (p e m).2) :
    Prog.Keeps (HeldFs bound) (sys .fs p) := by
  intro e d a d' ok below
  rw [(sysSome ok).2]
  exact heldLess below (held e d.fs)

theorem sysIdHeld {α : Type} (p : Sys Call α) : Prog.Keeps (HeldFs bound) (sys .id p) := by
  intro e d a d' ok
  rw [(sysSome ok).2]
  exact refl_of (HeldFs bound) d

theorem fstatHeld (c : Call) (slot : Slot) (e : Env Call) (m : Mount Call) :
    Held m.next m (fstat c slot e m).2 := by
  rw [fstatState]
  exact refl_of (Held m.next) m

theorem closeHeldFs {n : Fd} (new : bound ≤ n) : Prog.Keeps (HeldFs bound) (sys .fs (close (.fd n))) := by
  intro e d a d' ok _
  rw [(sysSome ok).2]
  exact closeHeld new e d.fs

theorem setInodeHeld (ref : Ref) (f : Inode → Inode) : Prog.Keeps (HeldFs bound) (setInode ref f) :=
  keepsModify fun d => by cases ref <;> exact refl_of (HeldFs bound) d

theorem heldLookup {n : Fd} (new : bound ≤ n) : KeepsLookup (HeldFs bound) (.fd n) where
  sets _ _ := setInodeHeld _ _
  sockets d _ := refl_of (HeldFs bound) d
  asks := sysFsHeld (f3IsIdHeld _ _)
  copies := sysIdHeld _
  closes := closeHeldFs new
  stats := sysIdHeld _
  sizes := sysFsHeld (f3GetAttrHeld f3Size 23 _)

theorem lookupHeld {parent name e} {d : State} {r d'}
    (ok : doLookup parent name e d = some (r,d')) : Held d.fs.next d.fs d'.fs := by
  obtain ⟨dir,d0,first,rest⟩ := bindSome ok
  obtain ⟨rfl,_⟩ := getInodeSome first
  obtain ⟨opened,d1,call,rest⟩ := bindSome rest
  have one := sysFsHeld (openPathHeld .lookupOpen dir.fd name) e d0 opened d1 call (Nat.le_refl _)
  cases opened with
  | error err => rwa [(pureSome rest).2]
  | ok newfd =>
    have newest : newfd = .fd d0.fs.next := by
      have result := (sysSome call).1
      rcases openPathCases .lookupOpen dir.fd name e d0.fs with ⟨err,same⟩ | ⟨up,p,entry,_,_,same⟩
      · simp [State.mount,same] at result
      · simpa [State.mount,same] using result
    subst newest
    have new : d0.fs.next ≤ d0.fs.next := Nat.le_refl _
    refine trans_of (Held d0.fs.next) one (keepsBind (sysFsHeld (fstatHeld _ _)) (fun r => ?_)
      e d1 r d' rest one.next)
    cases r with
    | error err => exact keepsBind (closeHeldFs new) fun _ => keepsPure _
    | ok attr =>
      refine keepsBind keepsGet fun known => keepsIte (keepsPure _) ?_
      refine keepsIte (keepsPure _) (keepsBind ?_ fun addr => ?_)
      · intro e d a d' ok
        cases Option.some.inj ok
        exact refl_of (HeldFs _) d
      · refine keepsBind keepsGet fun known => ?_
        cases known.inode (.node addr) with
        | none => exact keepsAbort
        | some inode =>
          exact keepsBind ((heldLookup new).enter _ _ _ _ _) fun _ => (heldLookup new).answer _ _ _

end Held

theorem lookupNext {parent : Ref} {name : FileName} {e : Env Call} {d d' : State} {dir r newfd attr}
    (known : d.inode parent = some dir) (ok : doLookup parent name e d = some (r,d'))
    (found : resolve e d.fs d.conf.srcDev dir name = some (newfd,attr)) : d.fs.next < d'.fs.next := by
  obtain ⟨dir',known',looks⟩ := lookupOpened ok
  cases known.symm.trans known'
  refine Nat.lt_of_lt_of_le ?_ looks.fs.ages.next
  rcases openPathCases .lookupOpen dir.fd name e d.fs with ⟨err,same⟩ | ⟨up,p,entry,_,_,same⟩
  · simp [resolve,same] at found
  · rw [same]
    exact Nat.lt_succ_self _

end F3.Driver
