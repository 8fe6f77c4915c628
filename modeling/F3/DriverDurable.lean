import F3.DriverAround
import F3.Lib.PosixBooks

/-! The handlers as sequences of calls: a relation on the shared tree and one on the ID tree
that every call keeps is kept by every handler. -/
namespace F3.Driver.Durable
open Lib (Bytes Arena Cell Prog Act)
open Lib.Prog (keepsBind bindSome keepsPure keepsOnlyIf keepsIte keepsModify keepsGet)
open Lib.Posix

def Both (R S : Mount Call → Mount Call → Prop) (d d' : State) : Prop := R d.fs d'.fs ∧ S d.id d'.id

variable {α β : Type} {R S : Mount Call → Mount Call → Prop}

section Sides

theorem sysFs [Std.Refl S] {p : Sys Call α} (keeps : Act.Keeps R p) :
    Prog.Keeps (Both R S) (sys .fs p) := by
  intro e d a d' ok
  rw [(sysSome ok).2]
  exact ⟨keeps e d.fs,refl_of S d.id⟩

theorem sysId [Std.Refl R] {p : Sys Call α} (keeps : Act.Keeps S p) :
    Prog.Keeps (Both R S) (sys .id p) := by
  intro e d a d' ok
  rw [(sysSome ok).2]
  exact ⟨refl_of R d.fs,keeps e d.id⟩

end Sides

section Sys
variable [Durable R]

theorem borrowDurable (c : Call) (fd : Slot) (access : Access) (failed : Errno → β) (made : α → β)
    {body : Slot → Sys Call α} (keeps : ∀ newfd, Act.Keeps R (body newfd)) :
    Act.Keeps R (do
      match ← f3GetFullFd c fd access with
      | .error err => pure (failed err)
      | .ok newfd => do
          let res ← body newfd
          close newfd
          pure (made res)) := by
  refine Act.keepsBind (Durable.reopen c fd _) fun r => ?_
  cases r with
  | error err => exact Act.keepsPure _
  | ok newfd =>
    exact Act.keepsBind (keeps newfd) fun _ => Act.keepsBind (Durable.close newfd) fun _ => Act.keepsPure _

theorem isIdDurable (caller : Caller) (fd : Slot) : Act.Keeps R (f3IsId caller fd) :=
  borrowDurable _ _ _ (fun _ => false) _ fun _ => Durable.fgetxattr _ _ _ _

theorem getAttrDurable (attr : Bytes) (size : Nat) (fd : Slot) : Act.Keeps R (f3GetAttr attr size fd) :=
  borrowDurable _ _ _ (fun _ => []) _ fun _ => Durable.fgetxattr _ _ _ _

theorem getSizeDurable (fd : Slot) : Act.Keeps R (f3GetSizeXattr fd) := fun e m =>
  getAttrDurable f3Size 23 fd e m

theorem openIdCopyDurable (idParent : Slot) (name : FileName) (kind : Kind) :
    Act.Keeps R (openIdCopy idParent name kind) :=
  openIdCopyKeeps (fun _ => Durable.openPath _ _ _) (fun _ => Durable.makeAt _ _ _ _ _)
    (fun _ => Durable.openCreate _ _ _ _) (fun _ => Durable.close _) kind

end Sys

section Handlers
variable [Durable R] [Durable S]

instance : IsPreorder State (Both R S) where
  refl d := ⟨refl_of R d.fs,refl_of S d.id⟩
  trans _ _ _ one two := ⟨trans_of R one.1 two.1,trans_of S one.2 two.2⟩

theorem sysBoth (side : Side) {p : Sys Call α} (fs : Act.Keeps R p) (id : Act.Keeps S p) :
    Prog.Keeps (Both R S) (sys side p) := by
  cases side
  · exact sysFs fs
  · exact sysId id

theorem sameBoth {d d' : State} (fs : d'.fs = d.fs) (id : d'.id = d.id) : Both R S d d' := by
  unfold Both
  rw [fs,id]
  exact ⟨refl_of R d.fs,refl_of S d.id⟩

theorem setInodeBoth (ref : Ref) (f : Inode → Inode) : Prog.Keeps (Both R S) (setInode ref f) :=
  keepsModify fun _ => by cases ref <;> exact sameBoth rfl rfl

theorem replyBoth (r : Reply) : Prog.Keeps (Both R S) (reply r) := keepsModify fun _ => sameBoth rfl rfl

theorem sendBoth (m : Message) : Prog.Keeps (Both R S) (send m) := keepsModify fun _ => sameBoth rfl rfl

theorem bothNames : KeepsNames (Both R S) where
  replies := replyBoth
  counts ref _ _ _ _ := setInodeBoth ref _
  stats := sysBoth _ (Durable.fstat _ _) (Durable.fstat _ _)
  cuts i size fi := by
    cases fi with
    | none => exact sysBoth _ (Durable.truncateAt _ _ _) (Durable.truncateAt _ _ _)
    | some fh => exact sysBoth _ (Durable.ftruncate _ _ _) (Durable.ftruncate _ _ _)
  writes fh off data := sysBoth _ (writeAtKeeps (fun _ => Durable.pwriteAt _ _ _ _) off)
    (writeAtKeeps (fun _ => Durable.pwriteAt _ _ _ _) off)
  links := sysBoth _ (Durable.linkAt _ _ _ _) (Durable.linkAt _ _ _ _)
  unlinks := sysBoth _ (Durable.unlinkAt _ _ _ _) (Durable.unlinkAt _ _ _ _)
  renames := sysBoth _ (Durable.renameAt _ _ _ _ _) (Durable.renameAt _ _ _ _ _)

theorem bothLookup (newfd : Slot) : KeepsLookup (Both R S) newfd where
  sets _ _ := setInodeBoth _ _
  sockets _ _ := sameBoth rfl rfl
  asks := sysFs (isIdDurable _ _)
  copies := sysId (openIdCopyDurable _ _ _)
  closes := sysFs (Durable.close _)
  stats := sysId (Durable.fstat _ _)
  sizes := sysFs (getSizeDurable _)

theorem isNewBoth (caller : Caller) (parent : Ref) (name : FileName) :
    Prog.Keeps (Both R S) (f3IsNewId caller parent name) := (bothLookup .closed).isNew caller parent name

theorem lookupBoth (parent : Ref) (name : FileName) : Prog.Keeps (Both R S) (doLookup parent name) :=
  lookupKeeps bothLookup (sysFs (Durable.openPath _ _ _)) (sysFs (Durable.fstat _ _)) (fun _ _ => sameBoth rfl rfl)
    parent

theorem releaseUnlinkedBoth (x : EntryParam) : Prog.Keeps (Both R S) (releaseUnlinked x) :=
  releaseUnlinkedKeeps (fun side _ => sysBoth side (Durable.close _) (Durable.close _))
    (fun _ => setInodeBoth _ _) x

theorem forgetBoth (ino : Ref) (n : Nat) : Prog.Keeps (Both R S) (forgetOne ino n) :=
  forgetKeeps (setInodeBoth ino _) (fun _ => sysFs (Durable.close _)) fun _ _ => sameBoth rfl rfl

theorem forgetAllBoth (forgets : List (Ref × Nat)) : Prog.Keeps (Both R S) (forgetAll forgets) :=
  forgetAllKeeps forgetBoth forgets

theorem forgetEntryBoth (x : EntryParam) : Prog.Keeps (Both R S) (forgetEntry x) :=
  forgetEntryKeeps (fun ino => forgetBoth ino 1) x

theorem openBoth (ino : Ref) (flags : Flags) : Prog.Keeps (Both R S) (sfsOpen ino flags) :=
  bothNames.openFile (sysFs (getAttrDurable _ _ _)) (sysFs (getSizeDurable _)) sendBoth
    (sysBoth _ (Durable.reopen _ _ _) (Durable.reopen _ _ _)) ino flags

theorem releaseBoth {ino : Ref} {fh : Handle} {e : Env Call} {d d' : State}
    (sizes : ∀ i, d.inode ino = some i → mayWrite (d.mount fh.side) fh.fd = true →
      R d.fs (f3UpdateSizeXattr i.fd i.size e d.fs).2)
    (ok : sfsRelease ino fh e d = some ((),d')) : Both R S d d' := by
  obtain ⟨i,d0,got,one⟩ := bindSome ok
  obtain ⟨rfl,known,_⟩ := getInodeSome got
  obtain ⟨_,d1,now,two⟩ := bindSome one
  cases Option.some.inj now
  obtain ⟨_,d2,sized,three⟩ := bindSome two
  refine trans_of (Both R S) (b := d2) ?_ ?_
  · unfold Prog.onlyIf at sized
    split at sized
    · rename_i writes
      rw [(sysSome sized).2]
      exact ⟨sizes i known writes,refl_of S d0.id⟩
    · rw [(Prog.pureSome sized).2]
      exact sameBoth rfl rfl
  · refine keepsBind (keepsOnlyIf ?_) (fun _ => ?_) e d2 () d' three
    · exact keepsBind (sysFs (getAttrDurable _ _ _)) fun _ => sendBoth _
    · exact keepsBind (setInodeBoth _ _) fun _ =>
        keepsBind (sysBoth _ (Durable.close _) (Durable.close _)) fun _ => replyBoth _

theorem convertBoth (ino : Ref) (name : Bytes) : Prog.Keeps (Both R S) (convertUnmarked ino name) :=
  keepsIte (makeIdFsKeeps (sysBoth _ (Durable.reopen _ _ _) (Durable.reopen _ _ _))
    (fun d _ _ => ⟨Durable.content _ _ _,refl_of S d.id⟩) (sysId (Durable.ftruncate _ _ _)) (setInodeBoth ino _)
    (sysBoth _ (Durable.close _) (Durable.close _))) (keepsPure _)

end Handlers

section Marks

theorem setMarksLasting [Lasting R] (side : Side) (address : Bytes) (newfd fd : Slot) (len : Nat) :
    Act.Keeps R (setMarks side address newfd fd len) := by
  have chain : ∀ {γ δ : Type} {p : Sys Call (Except Errno γ)} {f : γ → Sys Call (Except Errno δ)},
      Act.Keeps R p → (∀ a, Act.Keeps R (f a)) → Act.Keeps R (andThen p f) := by
    intro γ δ p f first rest
    refine Act.keepsBind first fun r => ?_
    cases r with
    | error err => exact Act.keepsPure _
    | ok a => exact rest a
  exact chain (Lasting.fsetxattr _ _ _ _) fun _ => chain (Lasting.fsetxattr _ _ _ _) fun _ =>
    chain (Durable.readlinkFd _ _) fun _ => Lasting.fsetxattr _ _ _ _

theorem markLasting [Lasting R] (side : Side) (address : Bytes) (fd : Slot) (len : Nat) :
    Act.Keeps R (f3MarkAsId side address fd len) :=
  borrowDurable _ fd .read (fun _ => .ok ()) (fun res => res) fun newfd =>
    setMarksLasting side address newfd fd len

variable [Lasting R] [Lasting S]

theorem markDirBoth (side : Side) (dir : Inode) (name : FileName) :
    Prog.Keeps (Both R S) (markDir side dir name) :=
  keepsBind keepsGet fun _ =>
    keepsBind (sysBoth side (Durable.openPath _ _ _) (Durable.openPath _ _ _)) fun _ =>
    keepsBind (sysBoth side (markLasting _ _ _ _) (markLasting _ _ _ _)) fun _ =>
    sysBoth side (Durable.close _) (Durable.close _)

theorem markNewBoth (parent : Ref) (dir : Inode) (name : FileName) :
    Prog.Keeps (Both R S) (markNew parent dir name) :=
  keepsBind (isNewBoth _ _ _) fun _ =>
    keepsBind (keepsOnlyIf (keepsBind (markDirBoth .fs dir name) fun _ =>
      markDirBoth .id dir name)) fun _ => keepsPure _

theorem chooseBoth (parent : Ref) (name : FileName) (fd idFd : Slot) :
    Prog.Keeps (Both R S) (chooseCopy parent name fd idFd) :=
  chooseKeeps (isNewBoth _ _ _) (sysBoth _ (markLasting _ _ _ _) (markLasting _ _ _ _)) (sysFs (Durable.close _))
    fun _ _ => sameBoth rfl rfl

end Marks

end F3.Driver.Durable
