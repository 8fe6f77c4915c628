import F3.DriverReplies

/-! The cell of an unlinked inode, reused for a new file with the same inode number.
Its struct is kept and only some fields are assigned, so what the earlier file left in
the others shows through. -/
namespace F3.Driver.Recycle
open Lib (Bytes Arena Cell Prog Act)
open Lib.Posix

structure Fields where
  isId : Bool
  needsDownload : Bool
  size : Nat
  targetSize : Nat
  deriving DecidableEq, Repr

def fields (i : Inode) : Fields := ⟨i.isId,i.needsDownload,i.size,i.targetSize⟩

def isMissing : Except Errno Slot → Bool
  | .error .enoent => true
  | _ => false

def missing (e : Env Call) (m : Mount Call) (dir : Inode) (name : FileName) (kind : Kind) : Bool :=
  isMissing (openPath .lookupOpenId dir.idFd name e m).1 && decide (kind ≠ .dir)

theorem makeIdCopyMissing (idParent : Slot) (name : FileName) (kind : Kind) (opened : Except Errno Slot)
    (e : Env Call) (m : Mount Call) :
    (makeIdCopy idParent name kind opened e m).1.2 = (isMissing opened && decide (kind ≠ .dir)) := by
  unfold makeIdCopy
  split
  · rfl
  · split
    · rename_i isDir
      simp [isMissing,isDir,pure,bind]
    · rename_i isFile
      simp [isMissing,isFile,pure,bind]
  · rename_i err other
    have found : isMissing (.error err) = false := by
      unfold isMissing
      split
      · rename_i same
        cases Except.error.inj same
        exact absurd rfl (other)
      · rfl
    simp [found,pure]

def fresh (e : Env Call) (d : State) (dir : Inode) (name : FileName) (kind : Kind) : Fields :=
  ⟨isNewHere e d.fs dir name,missing e d.id dir name kind && isNewHere e d.fs dir name,0,0⟩

theorem builtFields (i : Inode) (e : Env Call) (d : State) (dir : Inode) (name : FileName)
    (kind : Kind) (key : SrcId) (newfd : Slot) (conn : Option Nat) (src : SrcId) :
    fields {i.built key newfd (isNewHere e d.fs dir name)
        (openIdCopy dir.idFd name kind e d.id).1 conn with src := src} =
      ⟨i.isId || isNewHere e d.fs dir name,i.needsDownload ||
        (missing e d.id dir name kind && (i.isId || isNewHere e d.fs dir name)),
        i.size,i.targetSize⟩ := by
  have flag : (openIdCopy dir.idFd name kind e d.id).1.2 = missing e d.id dir name kind :=
    makeIdCopyMissing dir.idFd name kind _ e _
  simp [fields,Inode.built,Inode.fill,flag]

def Clean (old : Inode) (new : Fields) : Prop :=
  (old.isId = true → new.isId = true) ∧ (old.needsDownload = true → new.needsDownload = true) ∧
    old.size = 0 ∧ old.targetSize = 0
instance (old new) : Decidable (Clean old new) := by unfold Clean; infer_instance

theorem fieldsClean (isId needsDownload isNew missing : Bool) :
    ((isId || isNew) = isNew ∧ (needsDownload || (missing && (isId || isNew))) = (missing && isNew)) ↔
      (isId = true → isNew = true) ∧ (needsDownload = true → (missing && isNew) = true) := by
  revert isId needsDownload isNew missing
  decide

theorem builtCell {parent name e} {d : State} {r d' dir newfd attr c}
    (spec : Looked parent name e d r d') (up : d.inode parent = some dir)
    (found : resolve e d.fs d.conf.srcDev dir name = some (newfd,attr))
    (old : d.inodes.atKey (attr.ino,attr.dev) = some c ∧ ¬ c.value.Live ∨
      d.inodes.atKey (attr.ino,attr.dev) = none ∧ c.value = {}) :
    ∃ new, d'.inodes.atKey (attr.ino,attr.dev) = some new ∧
      (d.inodes.atKey (attr.ino,attr.dev) = some c → new.addr = c.addr) ∧
      fields new.value = ⟨c.value.isId || isNewHere e d.fs dir name,c.value.needsDownload ||
        (missing e d.id dir name attr.kind && (c.value.isId || isNewHere e d.fs dir name)),
        c.value.size,c.value.targetSize⟩ := by
  cases spec with
  | @missed dir1 up1 nothing failed table =>
    cases Option.some.inj (up.symm.trans up1)
    exact absurd found (by simp [nothing])
  | @known dir1 newfd1 attr1 c1 src up1 found1 here live plain named table =>
    cases Option.some.inj (up.symm.trans up1)
    cases Option.some.inj (found.symm.trans found1)
    rcases old with ⟨same,dead⟩ | ⟨absent,_⟩
    · cases Option.some.inj (here.symm.trans same)
      exact absurd live dead
    · exact absurd here (by simp [absent])
  | @built dir1 newfd1 attr1 c1 src conn up1 found1 key old1 entered dead plain named table =>
    cases Option.some.inj (up.symm.trans up1)
    cases Option.some.inj (found.symm.trans found1)
    rw [key] at old1
    have cell : d.inodes.atKey (attr.ino,attr.dev) = some c → c1 = c := by
      intro same
      rcases old1 with same1 | ⟨absent1,_⟩
      · exact Option.some.inj (same1.symm.trans same)
      · exact absurd same (by simp [absent1])
    have value : c1.value = c.value := by
      rcases old with ⟨same,_⟩ | ⟨absent,empty⟩
      · rw [cell same]
      · rcases old1 with same1 | ⟨_,empty1⟩
        · exact absurd same1 (by simp [absent])
        · rw [empty1,empty]
    refine ⟨_,by rw [table,← key]; exact Arena.atKeyModify entered,fun same => ?_,?_⟩
    · rw [← cell same]
    · rw [← value]
      exact builtFields c1.value e d dir name attr.kind c1.key newfd conn src

def createAnswer (e : Env Call) (u : State) (parent : Ref) (name : FileName) : Option Bool :=
  (f3IsNewId .handler parent name e u).map Prod.fst

def copyFor (isId : Bool) : Side := if isId then .id else .fs

theorem createdCopy {parent name fd idFd e} {u v : State} {fh isNew}
    (ok : chooseCopy parent name fd idFd e u = some (fh,v))
    (answer : createAnswer e u parent name = some isNew) : fh.side = copyFor isNew := by
  obtain ⟨said,w,asked,rest⟩ := Prog.bindSome ok
  have same : said = isNew := by simpa [createAnswer,asked] using answer
  subst same
  cases said with
  | false => rw [(Prog.pureSome rest).1]; rfl
  | true =>
    obtain ⟨_,_,_,rest⟩ := Prog.bindSome rest
    obtain ⟨_,_,_,rest⟩ := Prog.bindSome rest
    obtain ⟨_,_,_,rest⟩ := Prog.bindSome rest
    obtain ⟨_,_,_,rest⟩ := Prog.bindSome rest
    obtain ⟨_,_,_,rest⟩ := Prog.bindSome rest
    rw [(Prog.pureSome rest).1]
    rfl

theorem openedCopy {ino flags e} {w w' : State} {i fh} (known : w.inode ino = some i)
    (ok : sfsOpen ino flags e w = some ((),w')) (replied : w'.replies = w.replies ++ [.opened fh]) :
    fh.side = copyFor i.isId := by
  obtain ⟨j,w1,first,rest⟩ := Prog.bindSome ok
  obtain ⟨rfl,here,_⟩ := getInodeSome first
  cases Option.some.inj (known.symm.trans here)
  obtain ⟨conf,w2,got,rest⟩ := Prog.bindSome rest
  cases Option.some.inj got
  obtain ⟨_,w3,started,rest⟩ := Prog.bindSome rest
  have quiet : w3.replies = w1.replies :=
    Prog.keepsOnlyIf (Service.startMute ino i) e w1 _ w3 started
  obtain ⟨res,w4,opened,rest⟩ := Prog.bindSome rest
  have quiet4 : w4.replies = w1.replies := (Service.sysMute _ _ e w3 res w4 opened).trans quiet
  cases res with
  | error err =>
    cases Option.some.inj rest
    simp [quiet4] at replied
  | ok fd =>
    obtain ⟨_,w5,counted,rest⟩ := Prog.bindSome rest
    have quiet5 : w5.replies = w1.replies := (Service.setInodeMute _ _ e w4 _ w5 counted).trans quiet4
    cases Option.some.inj rest
    have same : (⟨i.side,fd⟩ : Handle) = fh := by simpa [quiet5] using replied
    rw [← same]
    rfl

theorem inodeErased {d : State} {ref : Ref} {i : Inode} {key c} (known : d.inode ref = some i)
    (live : i.Live) (dead : ¬ c.value.Live) (there : d.inodes.atKey key = some c) :
    {d with inodes := d.inodes.erase key}.inode ref = some i := by
  cases ref with
  | root => exact known
  | node a =>
    obtain ⟨cell,here,same⟩ := Option.map_eq_some_iff.mp known
    have other : cell.key ≠ key := by
      intro hit
      have mem := (Arena.atAddrMem here).1
      have found := Arena.memAtKey mem
      rw [hit,there] at found
      cases Option.some.inj found
      rw [same] at dead
      exact dead live
    simp [State.inode,Arena.atAddrErase here other,same]

theorem recycledLikeFresh {parent name e} {d : State} {dir newfd attr c}
    (up : getInode parent e d = some (dir,d))
    (found : resolve e d.fs d.conf.srcDev dir name = some (newfd,attr))
    (recycled : d.inodes.atKey (attr.ino,attr.dev) = some c) (unlinked : c.value.fd = .enoent) :
    ∃ r d' new r₀ d₀ inserted,
      doLookup parent name e d = some (r,d') ∧
      d'.inodes.atKey (attr.ino,attr.dev) = some new ∧ new.addr = c.addr ∧
      doLookup parent name e {d with inodes := d.inodes.erase (attr.ino,attr.dev)} = some (r₀,d₀) ∧
      d₀.inodes.atKey (attr.ino,attr.dev) = some inserted ∧
      fields inserted.value = fresh e d dir name attr.kind ∧
      (fields new.value = fields inserted.value ↔ Clean c.value (fresh e d dir name attr.kind)) ∧
      ∀ {u v w w' : State} {fd idFd fh flags e' i fh'},
        chooseCopy parent name fd idFd e u = some (fh,v) →
        createAnswer e u parent name = some (isNewHere e d.fs dir name) →
        w.inode (.node new.addr) = some i → i.isId = new.value.isId →
        sfsOpen (.node new.addr) flags e' w = some ((),w') →
        w'.replies = w.replies ++ [.opened fh'] →
        (fh.side = fh'.side ↔ (c.value.isId = true → isNewHere e d.fs dir name = true)) := by
  obtain ⟨_,known,filled⟩ := getInodeSome up
  obtain ⟨_,_,_,at_,_⟩ := resolved found
  have dead : ¬ c.value.Live := fun live => live.2 unlinked
  let d1 := {d with inodes := d.inodes.erase (attr.ino,attr.dev)}
  have known1 : d1.inode parent = some dir := inodeErased known (dirAtLive at_) dead recycled
  obtain ⟨r,d',runs,spec,_⟩ := @lookupRuns parent e name d dir up
  obtain ⟨r₀,d₀,runs₀,spec₀,_⟩ := @lookupRuns parent e name d1 dir (getInodeEq e known1 filled)
  obtain ⟨new,here,place,now⟩ := builtCell spec known found (Or.inl ⟨recycled,dead⟩)
  obtain ⟨inserted,here₀,_,now₀⟩ := @builtCell parent name e d1 r₀ d₀ dir newfd attr ⟨0,(0,0),{}⟩
    spec₀ known1 found (Or.inr ⟨Arena.atKeyErase _ _,rfl⟩)
  have first : fields inserted.value = fresh e d dir name attr.kind := by
    rw [now₀]
    simp [fresh,d1]
  refine ⟨r,d',new,r₀,d₀,inserted,runs,here,place recycled,runs₀,here₀,first,?_,?_⟩
  · rw [first,now]
    have flags := fieldsClean c.value.isId c.value.needsDownload (isNewHere e d.fs dir name)
      (missing e d.id dir name attr.kind)
    constructor
    · intro same
      obtain ⟨one,two,three,four⟩ := Fields.mk.inj same
      have both := flags.mp ⟨one,two⟩
      exact ⟨both.1,both.2,three,four⟩
    · rintro ⟨one,two,three,four⟩
      have both := flags.mpr ⟨one,two⟩
      rw [fresh,Fields.mk.injEq]
      exact ⟨both.1,both.2,three,four⟩
  · intro u v w w' fd idFd fh flags e' i fh' chosen answer inode same opened replied
    have isId : i.isId = (c.value.isId || isNewHere e d.fs dir name) :=
      same.trans (congrArg Fields.isId now)
    rw [createdCopy chosen answer,openedCopy inode opened replied,isId]
    cases c.value.isId <;> cases isNewHere e d.fs dir name <;> simp [copyFor]

/- Without caching: a file is created, released and unlinked, which leaves its cell to
be recycled, and the create of the next file fails in the ID tree, so that the lookup of
that file is the one to reuse the cell. -/
def failingId (ino : Ino) : Env Call :=
  {calm ino with fault := fun c => if c = .create .id then some .enospc else none}

def recycledRun (first : FileName) : List Step :=
  [.request (.create .root first forWriting) (calm 10),
   .request (.release (.node 0) ⟨if f3IsIdExt first.val then .id else .fs,.fd 1⟩) (calm 10),
   .request (.unlink .root first) (calm 10)]

def afterPlain : State := ((Lib.Run.run step (mounted false) (recycledRun nameA ++
  [.request (.create .root nameB forWriting) (failingId 10)])).getD (mounted false))

def plainCell : Cell SrcId Inode :=
  ⟨0,(10,1),{fd := .enoent, idFd := .enoent, src := (10,1), generation := 1, nlookup := 2}⟩

theorem plainRecycled : ∃ r d' new, doLookup .root nameB (calm 11) afterPlain = some (r,d') ∧
    d'.inodes.atKey (10,1) = some new ∧ fields new.value = ⟨false,false,0,0⟩ := by
  obtain ⟨r,d',new,_,_,inserted,runs,here,_,_,_,first,same,_⟩ :=
    @recycledLikeFresh .root nameB (calm 11) afterPlain afterPlain.root (.fd 9)
      ⟨10,1,.reg,1,0⟩ plainCell (by rfl) (by rfl) (by rfl) (by rfl)
  refine ⟨r,d',new,runs,here,?_⟩
  rw [same.mpr (by decide +kernel),first]
  rfl

theorem staleId :
    (Lib.Run.run step (mounted false) (recycledRun nameId)).map (fun d =>
      (d.inodes.cells.map fun c => (c.key,c.value.fd),isNewId d.fs d.root nameB)) =
        some ([((10,1),.enoent)],false) ∧
    (Lib.Run.run step (mounted false) (recycledRun nameId ++
      [.request (.create .root nameB forWriting) (calm 10)])).map (fun d =>
        (d.replies,d.inodes.cells.map fun c => (c.key,c.value.isId,c.value.side))) =
      some ([.create ⟨some 0,1,⟨10,7,.reg,1,0⟩⟩ ⟨.fs,.fd 11⟩],[((10,1),true,.id)]) := by
  decide +kernel

end F3.Driver.Recycle
