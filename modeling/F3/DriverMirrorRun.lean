import F3.DriverMirror

/-! The requests that change names, and whole runs of them: the ID tree names nothing that the
shared tree does not name, with the same type of file. -/
namespace F3.Driver.Mirror
open Lib (Bytes Arena Cell Prog Act)
open Lib.Posix
open Lib.Mirror
open Lib.Run (run Meets)
open Fds Owners Copies

section Stages
variable {d d' : State}

theorem besideMirrored (mirrored : Mirrored d) (fs : d'.fs = d.fs) (id : d'.id = d.id) (table : Table d d') :
    Mirrored d' := by
  refine carried mirrored table (fun x _ => Or.inl ⟨by rw [fs],by rw [id]⟩) (fun q x now => ⟨q,id ▸ now,by rw [fs]⟩)
    (by rw [fs]) (by rw [fs]) ⟨?_,?_⟩
  · rw [fs]
    exact refl_of (Steady Anything []) d.fs
  · rw [id]
    exact refl_of (Steady Anything []) d.id

theorem repliesMirrored (mirrored : Mirrored d) (replies : List Reply) :
    Mirrored {d with replies := replies} := besideMirrored mirrored rfl rfl (sameTable rfl rfl)

theorem topFound (m : Mount Call) : names m [] = some m.vol.tree.root := m.vol.tree.rooted

theorem fsGrown (mirrored : Mirrored d) {m : Mount Call}
    (stays : ∀ {p y}, names d.fs p = some y → names m p = some y) (dev : m.vol.dev = d.fs.vol.dev)
    (held : Held d.fs.next d.fs m) (steady : Steady Anything [] d.fs m) : Mirrored {d with fs := m} := by
  refine carried mirrored (sameTable rfl rfl) (fun x mem => ?_) (fun q x now => ⟨q,now,?_⟩) ?_ dev
    ⟨steady,refl_of (Steady Anything []) d.id⟩
  · exact heldStill (mirrored.sits x mem) held (refl_of (Held d.id.next) d.id)
  · obtain ⟨y,named,_⟩ := mirrored.trees.there now
    exact (stays named).trans named.symm
  · exact (stays (topFound d.fs)).trans (topFound d.fs).symm

theorem aroundMirrored {b c : Fd} (mirrored : Mirrored d) (around : Around b c d d')
    (bounds : ∀ x ∈ holders d, (∀ n, x.2.fd = .fd n → n < b) ∧ ∀ n, x.2.idFd = .fd n → n < c)
    (next : b ≤ d.fs.next ∧ c ≤ d.id.next) (booked : Bookkept d d') : Mirrored d' := by
  refine carried mirrored (sameTable around.root around.inodes) (fun x mem => Or.inl ⟨?_,?_⟩)
    (fun q x now => ⟨q,?_,?_⟩) ?_ around.dev booked
  · exact heldSlot (around.held next.1) (bounds x mem).1
  · exact heldSlot (around.heldId next.2) (bounds x mem).2
  · rw [names,← around.idTree]
    exact now
  · rw [names,around.tree]
  · rw [names,around.tree]

end Stages

section Requests
variable {e : Env Call} {d d' : State}

theorem lookupRequest {parent : Ref} {name : FileName} (mirrored : Mirrored d) (calm : ∀ c, e.fault c = none)
    (duplicable : ∀ dir ∈ d.inode parent, Duplicable d dir name)
    (ok : sfsLookup parent name e d = some ((),d')) : Mirrored d' := by
  obtain ⟨r,d1,looked,last⟩ := Prog.bindSome ok
  obtain ⟨dir,known,_⟩ := lookupOpened looked
  have after := lookupMirrored mirrored calm known (duplicable dir known) looked
  split at last <;> rw [replySome last] <;> exact repliesMirrored after _

section Mknod
variable {parent : Ref} {dir : Inode} {name : FileName} {kind : Kind} {link : Bytes} {m : Mount Call}

theorem fsMade (mirrored : Mirrored d)
    (made : makeAt (.mknod .fs) dir.fd name kind link e d.fs = (.ok (),m)) : Mirrored {d with fs := m} := by
  have grows := makeAtGrows (.mknod .fs) dir.fd name kind link e d.fs
  have tidy := makeAtTidy (.mknod .fs) dir.fd name kind link e d.fs
  have steady : Steady Anything [] d.fs (makeAt (.mknod .fs) dir.fd name kind link e d.fs).2 :=
    Durable.makeAt _ _ _ _ _ e d.fs
  rw [made] at grows tidy steady
  exact fsGrown mirrored grows.kept grows.dev (tidyHeld tidy) steady

theorem bothMade (mirrored : Mirrored d) (known : d.inode parent = some dir) {content n}
    (made : makeAt (.mknod .fs) dir.fd name kind link e d.fs = (.ok (),m))
    (madeId : makeAt (.mknod .id) dir.idFd name kind content e d.id = (.ok (),n)) :
    Mirrored {d with fs := m, id := n} := by
  have first := fsMade mirrored made
  have same : State.inode {d with fs := m} parent = some dir := by cases parent <;> exact known
  obtain ⟨up,p,entered⟩ := makeEntered made
  obtain ⟨x,q,v,atId,make,rfl⟩ := makeAtOk madeId
  have steady : Steady Anything [] d.id (makeAt (.mknod .id) dir.idFd name kind content e d.id).2 :=
    Durable.makeAt _ _ _ _ _ e d.id
  rw [madeId] at steady
  cases samePath first (inodeSeat first same) entered.now atId
  refine copyMade first make rfl (sameHeld rfl rfl) steady entered.found rfl fun h mem f file _ isNew => ?_
  obtain ⟨_,_,w,_,fresh,rfl⟩ := makeAtOk made
  obtain ⟨k,isFd⟩ := fdOfFile file
  rw [isFd] at file
  have busy := booksOpen mirrored.books.1 (show d.fs.file (.fd k) = some f from file)
  rw [isNew] at busy
  exact (makeOk fresh).1.1 busy

theorem mknodIdMirrored (mirrored : Mirrored d) (known : d.inode parent = some dir) (plain : kind ≠ .special)
    (made : makeAt (.mknod .fs) dir.fd name kind link e d.fs = (.ok (),m)) {r d1}
    (copied : mknodId parent dir name kind link e {d with fs := m} = some (r,d1)) :
    Mirrored d1 ∧ (r = .ok () → d1.inode parent = some dir ∧ Duplicable d1 dir name) := by
  have first := fsMade mirrored made
  have same : State.inode {d with fs := m} parent = some dir := by cases parent <;> exact known
  by_cases two : kind = .dir ∨ kind = .lnk
  · obtain ⟨_,n,madeId,rfl,⟨⟨err,failed⟩,rfl⟩ | ⟨rfl,keeps⟩⟩ := mknodIdRan two copied
    · exact ⟨first,fun wrong => by cases failed.symm.trans wrong⟩
    · have around := keeps (Around d.fs.next d.id.next) (markNewAround parent dir name)
      have booked : Bookkept {d with fs := m, id := n} d1 := keeps Bookkept (Durable.markNewBoth parent dir name)
      have fsNext := (makeAtTidy (.mknod .fs) dir.fd name kind link e d.fs).next
      obtain ⟨up,q,id⟩ := makeEntered madeId
      obtain ⟨atId,found⟩ := id.still (around.heldId id.held.next) around.idTree
      rw [made] at fsNext
      refine ⟨?_,fun _ => ⟨?_,fun entry _ => Or.inr (Or.inr (Or.inr ?_))⟩⟩
      · exact aroundMirrored (bothMade mirrored known made madeId) around
          (fun x mem => (mirrored.sits x mem).dated) ⟨fsNext,id.held.next⟩ booked
      · rw [aroundInode around]
        cases parent <;> exact known
      · rw [foundAtPath atId,found]
        simp
  · have isReg : kind = .reg := by
      cases kind <;> first | rfl | exact absurd rfl plain | exact absurd (by simp) two
    subst isReg
    obtain ⟨rfl,rfl⟩ := Prog.pureSome copied
    obtain ⟨up,p,entered⟩ := makeEntered made
    refine ⟨first,fun _ => ⟨same,fun entry found => Or.inr (Or.inr (Or.inl ?_))⟩⟩
    cases (Option.some.inj (((foundAtPath entered.now).trans entered.found).symm.trans found)).symm
    rfl

theorem mknodRequest (mirrored : Mirrored d) (calm : ∀ c, e.fault c = none) (plain : kind ≠ .special)
    (ok : mknodSymlink parent name kind link e d = some ((),d')) : Mirrored d' := by
  obtain ⟨dir,known,ran⟩ := mknodSome ok
  cases ran with
  | noFs same =>
    rw [same]
    exact repliesMirrored mirrored _
  | noId made failed same =>
    rw [same]
    exact repliesMirrored (mknodIdMirrored mirrored known plain made failed).1 _
  | looked made copied lookup same =>
    obtain ⟨copy,found⟩ := mknodIdMirrored mirrored known plain made copied
    obtain ⟨known1,duplicable⟩ := found rfl
    rw [same]
    exact repliesMirrored (lookupMirrored copy calm known1 duplicable lookup) _

end Mknod

theorem linkedMirrored {ino parent : Ref} {name : FileName} {i dir : Inode} {f g : File} {up x p q}
    {w : Volume Call} (mirrored : Mirrored d) (known : d.inode ino = some i)
    (knownDir : d.inode parent = some dir) (file : d.fs.file i.fd = some f)
    (at_ : d.fs.dirAt dir.fd = .ok (up,p)) (named : names d.fs (p ++ [name]) = some f.entry)
    (notDir : f.entry.isDir = false) (copy : d.id.file i.idFd = some g) (atId : d.id.dirAt dir.idFd = .ok (x,q))
    (linked : d.id.vol.link g.entry q name = .ok w)
    (steady : Steady Anything [] d.id {d.id with vol := w}) :
    Mirrored {d with id := {d.id with vol := w}} := by
  cases samePath mirrored (inodeSeat mirrored knownDir) at_ atId
  obtain ⟨f',file',pairs⟩ := (inodeSeat mirrored known).copy g copy
  cases Option.some.inj (file'.symm.trans file)
  obtain ⟨_,⟨r,there⟩,_,_,_,find⟩ := linkOk linked
  obtain ⟨y,original,alike⟩ := mirrored.trees.there there
  cases Option.some.inj (original.symm.trans (pairs r there))
  have adds : Adds Entry.kind Entry.kind (names d.fs) (names d.id) (names {d.id with vol := w}) (p ++ [name])
      f.entry g.entry := by
    refine ⟨fun s z now => ?_,named,alike,pairs⟩
    rw [names,find] at now
    split at now
    · rename_i isNew
      exact Or.inr ⟨isNew,(Option.some.inj now).symm⟩
    · exact Or.inl now
  refine added mirrored adds (sameHeld rfl rfl) steady (fun h _ f' g' _ _ others isCopy => ?_)
    fun h _ f' _ isDir same => ?_
  · exact Option.some.inj ((others r (isCopy ▸ there)).symm.trans original)
  · rw [same,notDir] at isDir
    cases isDir

theorem linkRequest {ino parent : Ref} {name : FileName} (mirrored : Mirrored d)
    (ok : sfsLink ino parent name e d = some ((),d')) : Mirrored d' := by
  have kept := keptNames.link _ _ _ e _ _ _ ok
  have table : Table d d' := shapeTable kept.root kept.cells
  obtain ⟨i,dir,known,knownDir,_,_,fs,id⟩ := linkSome ok
  have steady : Steady Anything [] d.fs (linkAt (.link .fs) i.fd dir.fd name e d.fs).2 :=
    Durable.linkAt _ _ _ _ e d.fs
  have steadyId : Steady Anything [] d.id (linkAt (.link .id) i.idFd dir.idFd name e d.id).2 :=
    Durable.linkAt _ _ _ _ e d.id
  rcases linkAtCases (.link .fs) i.fd dir.fd name e d.fs with ⟨err,failed⟩ | ⟨f,up,p,v,file,at_,linked,done⟩
  · rw [failed] at fs id
    rcases id with same | ⟨wrong,_⟩
    · exact besideMirrored mirrored fs same table
    · cases wrong
  · rw [done] at fs steady
    obtain ⟨notDir,_,_,_,absent,find⟩ := linkOk linked
    have stays : ∀ {q y}, names d.fs q = some y → v.tree.find q = some y := by
      intro q y there
      rw [find,if_neg fun same => by rw [same,names,absent] at there; cases there]
      exact there
    have first : Mirrored {d with fs := {d.fs with vol := v}} :=
      fsGrown mirrored stays (linkDev linked) (sameHeld rfl rfl) steady
    have same : ∀ ref, State.inode {d with fs := {d.fs with vol := v}} ref = d.inode ref :=
      fun ref => by cases ref <;> rfl
    have noId : d'.id = d.id → Mirrored d' := fun sameId => besideMirrored first fs sameId table
    rcases id with sameId | ⟨_,sameId⟩
    · exact noId sameId
    rcases linkAtCases (.link .id) i.idFd dir.idFd name e d.id with ⟨err,failed⟩ | ⟨g,x,q,w,copy,atId,linkedId,doneId⟩
    · rw [failed] at sameId
      exact noId sameId
    · rw [doneId] at sameId steadyId
      obtain ⟨_,_,_,_,there⟩ := dirAtFile at_
      have held : Held d.fs.next d.fs {d.fs with vol := v} := sameHeld rfl rfl
      have now := heldDir held (stays there) at_
      have second := linkedMirrored first ((same _).trans known) ((same _).trans knownDir) file now
        ((find _).trans (if_pos rfl)) notDir copy atId linkedId steadyId
      exact besideMirrored second fs sameId table

section Create
variable {parent : Ref} {dir : Inode} {name : FileName} {flags : Flags} {fd : Slot} {m : Mount Call}

theorem fsCreated (mirrored : Mirrored d)
    (opened : openCreate (.create .fs) dir.fd name flags e d.fs = (.ok fd,m)) : Mirrored {d with fs := m} := by
  have grows := openCreateGrows (.create .fs) dir.fd name flags e d.fs
  have held := openCreateHeld (.create .fs) dir.fd name flags e d.fs
  have steady : Steady Anything [] d.fs (openCreate (.create .fs) dir.fd name flags e d.fs).2 :=
    Durable.openCreate _ _ _ _ e d.fs
  rw [opened] at grows held steady
  exact fsGrown mirrored grows.kept grows.dev held steady

theorem bothCreated (mirrored : Mirrored d) (known : d.inode parent = some dir) {idFd n}
    (opened : openCreate (.create .fs) dir.fd name flags e d.fs = (.ok fd,m))
    (openedId : openCreate (.create .id) dir.idFd name flags e d.id = (.ok idFd,n)) :
    Mirrored {d with fs := m, id := n} := by
  have first := fsCreated mirrored opened
  have same : State.inode {d with fs := m} parent = some dir := by cases parent <;> exact known
  have held := openCreateHeld (.create .id) dir.idFd name flags e d.id
  have steady : Steady Anything [] d.id (openCreate (.create .id) dir.idFd name flags e d.id).2 :=
    Durable.openCreate _ _ _ _ e d.id
  rw [openedId] at held steady
  obtain ⟨_,up,p,entry,entered,isReg,_⟩ := createEntered opened
  obtain ⟨x,q,g,atId,_,_,_,_,_,⟨_,alike⟩ | ⟨v,make,quiet⟩⟩ := openCreateOk openedId
  · refine carried first (sameTable rfl rfl) (fun y mem => ?_) (fun r z now => ⟨r,?_,rfl⟩) rfl rfl
      ⟨refl_of (Steady Anything []) m,steady⟩
    · exact heldStill (first.sits y mem) (refl_of (Held m.next) m) held
    · rw [names,← (alike f3Id).tree]
      exact now
  · cases samePath first (inodeSeat first same) entered.now atId
    refine copyMade first make quiet.tree held steady entered.found isReg fun h _ f _ isDir sameEntry => ?_
    rw [sameEntry,Entry.isDir,isReg] at isDir
    cases isDir

theorem createRequest (mirrored : Mirrored d) (calm : ∀ c, e.fault c = none)
    (ok : sfsCreate parent name flags e d = some ((),d')) : Mirrored d' := by
  obtain ⟨dir,known,ran⟩ := createSome ok
  cases ran with
  | noFs same =>
    rw [same]
    exact repliesMirrored mirrored _
  | noId opened _ same =>
    rw [same]
    exact repliesMirrored (fsCreated mirrored opened) _
  | @chosen fd m idFd n fh d1 r d2 opened openedId chosen lookup finish =>
    obtain ⟨rfl,up,p,entry,fs,isReg,_⟩ := createEntered opened
    obtain ⟨_,_,_,_,id,_⟩ := createEntered openedId
    have around : Around d.fs.next d.id.next {d with fs := m, id := n} d1 :=
      chooseAround (Nat.le_refl _) e _ fh d1 chosen
    have booked : Bookkept {d with fs := m, id := n} d1 := Durable.chooseBoth _ _ _ _ e _ _ _ chosen
    have marked := aroundMirrored (bothCreated mirrored known opened openedId) around
      (fun x mem => (mirrored.sits x mem).dated) ⟨fs.held.next,id.held.next⟩ booked
    obtain ⟨at_,found⟩ := fs.still (around.held fs.held.next) around.tree
    have known1 : d1.inode parent = some dir := by
      rw [aroundInode around]
      cases parent <;> exact known
    have duplicable : Duplicable d1 dir name := by
      intro x there
      cases Option.some.inj (((foundAtPath at_).trans found).symm.trans there)
      exact Or.inr (Or.inr (Or.inl isReg))
    have looked := lookupMirrored marked calm known1 duplicable lookup
    cases r with
    | error err =>
      rw [replySome finish]
      exact repliesMirrored looked _
    | ok x =>
      have kept := replyCreateKept x fh e _ _ _ finish
      obtain ⟨sameFs,sameId,_⟩ := replyCreateSome finish
      exact besideMirrored looked sameFs sameId (shapeTable kept.root kept.cells)

end Create

theorem keptStill (kept : Kept d d') (fd idFd : Slot) : Still d d' fd idFd :=
  Or.inl ⟨slotSame fun n _ => kept.fs.file n,slotSame fun n _ => kept.id.file n⟩

theorem removedMirrored {c c' : Call} {fd idFd : Slot} {name : FileName} {rmdir : Bool} (mirrored : Mirrored d)
    (quiet : e.fault c' = none) (seat : Seat d fd idFd) (kept : Kept d d') (booked : Bookkept d d')
    (both : Both (unlinkAt c fd name rmdir) (unlinkAt c' idFd name rmdir) e d d') : Mirrored d' := by
  have moved : Moved d d' := by
    unfold Moved
    rw [both.fs,both.id]
    exact removeMoved c mirrored seat quiet
  refine carried mirrored (shapeTable kept.root kept.cells) (fun x _ => keptStill kept _ _) moved ?_ ?_ booked
  · rw [both.fs]
    exact removeTop c fd name rmdir e d.fs
  · rw [both.fs]
    rcases unlinkAtCases c fd name rmdir e d.fs with ⟨_,same⟩ | ⟨_,_,_,_,removed,same⟩ <;> rw [same]
    exact removeDev removed

theorem rmdirRequest {parent : Ref} {name : FileName} (mirrored : Mirrored d) (calm : ∀ c, e.fault c = none)
    (ok : sfsRmdir parent name e d = some ((),d')) : Mirrored d' := by
  obtain ⟨dir,known,both⟩ := rmdirSome ok
  exact removedMirrored mirrored (calm _) (inodeSeat mirrored known) (keptNames.rmdir _ _ e _ _ _ ok)
    (Durable.bothNames.rmdir _ _ e _ _ _ ok) both

theorem renameRequest {parent newparent : Ref} {name newname : FileName} {flags : Bool} (mirrored : Mirrored d)
    (calm : ∀ c, e.fault c = none)
    (fits : ∀ dir ∈ d.inode parent, ∀ ndir ∈ d.inode newparent, RenameFits d dir ndir name newname)
    (ok : sfsRename parent name newparent newname flags e d = some ((),d')) : Mirrored d' := by
  have kept := keptNames.rename _ _ _ _ _ e _ _ _ ok
  have booked : Bookkept d d' := Durable.bothNames.rename _ _ _ _ _ e _ _ _ ok
  obtain ⟨dir,ndir,known,nknown,⟨replies,rfl⟩ | ⟨_,both⟩⟩ := renameSome ok
  · exact repliesMirrored mirrored _
  · have moved : Moved d d' := by
      unfold Moved
      rw [both.fs,both.id]
      exact renameMoved mirrored (inodeSeat mirrored known) (inodeSeat mirrored nknown) (calm _) (calm _)
        (fits dir known ndir nknown)
    refine carried mirrored (shapeTable kept.root kept.cells) (fun x _ => keptStill kept _ _) moved ?_ ?_ booked
    · rw [both.fs]
      exact renameTop _ _ _ e d.fs
    · rw [both.fs]
      rcases renameAtCases (.rename .fs) dir.fd name ndir.fd newname e d.fs with
        ⟨_,same⟩ | ⟨_,_,_,_,_,_,_,renamed,same⟩ <;> rw [same]
      exact renameDev renamed

section Unlink
variable {parent : Ref} {dir : Inode} {name : FileName}

theorem closeShut (slot : Slot) (e : Env Call) (m : Mount Call) : (close slot e m).2.file slot = none := by
  cases slot with
  | closed => rfl
  | enoent => rfl
  | fd n => exact closeGone n e m

theorem cellOfHolder {h : Holder × Inode} {c : Cell SrcId Inode} (mem : h ∈ holders d)
    (memC : c ∈ d.inodes.cells) (same : h.1 = some (c.addr,c.key)) : h.2 = c.value := by
  rcases List.mem_cons.mp mem with rfl | inTable
  · cases same
  · obtain ⟨b,memB,rfl⟩ := List.mem_map.mp inTable
    have addr : b.addr = c.addr := congrArg Prod.fst (Option.some.inj same)
    cases Arena.sameAddr memB memC addr
    rfl

theorem releasedStill (mirrored : Mirrored d) {x : EntryParam} (ok : releaseUnlinked x e d = some ((),d')) :
    ∀ h ∈ holders d, Still d d' h.2.fd h.2.idFd := by
  intro h mem
  rcases releaseUnlinkedRan ok with rfl | ⟨a,c,here,_,rfl⟩
  · exact Or.inl ⟨rfl,rfl⟩
  · have memC := (Arena.atAddrMem here).1
    by_cases same : h.1 = some (c.addr,c.key)
    · rw [cellOfHolder mem memC same]
      exact Or.inr ⟨closeShut _ e d.fs,closeShut _ e d.id⟩
    · have apart : ¬ Share h.2 c.value := fun share => same (mirrored.apart h mem _ (cellHolder memC) share)
      refine Or.inl ⟨slotSame fun n isFd => closeFile (fun shared => ?_) e d.fs,
        slotSame fun n isFd => closeFile (fun shared => ?_) e d.id⟩
      · exact apart ⟨n,Or.inl ⟨isFd,shared.symm⟩⟩
      · exact apart ⟨n,Or.inr ⟨isFd,shared.symm⟩⟩

theorem releasedMoved {x : EntryParam} (ok : releaseUnlinked x e d = some ((),d')) :
    d'.fs.vol.tree = d.fs.vol.tree ∧ d'.id.vol.tree = d.id.vol.tree ∧ d'.fs.vol.dev = d.fs.vol.dev ∧
      Table d d' := by
  rcases releaseUnlinkedRan ok with rfl | ⟨a,c,here,_,rfl⟩
  · exact ⟨rfl,rfl,rfl,sameTable rfl rfl⟩
  · refine ⟨(closeQuiet c.value.fd e d.fs).tree,(closeQuiet c.value.idFd e d.id).tree,
      (closeQuiet c.value.fd e d.fs).dev,fun h mem => ?_⟩
    rcases List.mem_cons.mp mem with rfl | inTable
    · exact ⟨_,rootHolder d,rfl,Or.inl ⟨rfl,rfl⟩⟩
    · obtain ⟨b,memB,rfl⟩ := List.mem_map.mp inTable
      refine Arena.allModify (P := fun b => ∃ y ∈ holders d, y.1 = some (b.addr,b.key) ∧
        (y.2.fd = b.value.fd ∧ y.2.idFd = b.value.idFd ∨ b.value.fd = .enoent ∧ b.value.idFd = .enoent))
        (fun b old _ => ?_) (fun b old _ => ?_) b memB
      · exact ⟨_,cellHolder old,rfl,Or.inl ⟨rfl,rfl⟩⟩
      · exact ⟨_,cellHolder old,rfl,Or.inr ⟨rfl,rfl⟩⟩

theorem unlinkRequest (mirrored : Mirrored d) (calm : ∀ c, e.fault c = none)
    (duplicable : d.conf.cached = true ∨ ∀ dir ∈ d.inode parent, Duplicable d dir name)
    (ok : sfsUnlink parent name e d = some ((),d')) : Mirrored d' := by
  obtain ⟨dir,d0,got,one⟩ := Prog.bindSome ok
  obtain ⟨rfl,known,_⟩ := getInodeSome got
  obtain ⟨_,d1,now,two⟩ := Prog.bindSome one
  cases Option.some.inj now
  -- The names go at the end, with the descriptors the directory had at the start.
  have removes : ∀ {d2}, Mirrored d2 → Seat d2 dir.fd dir.idFd → unlinkBoth dir name e d2 = some ((),d') →
      Mirrored d' := fun before seat last => removedMirrored before (calm _) seat
    (keptNames.unlink dir name e _ _ _ last) (Durable.bothNames.unlink dir name e _ _ _ last) (unlinkBothSome last)
  split at two
  · exact removes mirrored (inodeSeat mirrored known) two
  · rename_i uncached
    obtain ⟨r,d2,lookup,rest⟩ := Prog.bindSome two
    have looked := lookupMirrored mirrored calm known (duplicable.resolve_left uncached dir known) lookup
    cases r with
    | error err =>
      rw [replySome rest]
      exact repliesMirrored looked _
    | ok x =>
      obtain ⟨_,d3,released,last⟩ := Prog.bindSome rest
      obtain ⟨i,known2,fd,idFd⟩ := dirStays known lookup
      obtain ⟨h,mem⟩ := inodeHolder known2
      have still := releasedStill looked released
      obtain ⟨tree,idTree,dev,table⟩ := releasedMoved released
      have moved : Moved d2 d3 := fun q x now => ⟨q,by rw [names,← idTree]; exact now,by rw [names,tree]⟩
      have booked : Bookkept d2 d3 := Durable.releaseUnlinkedBoth x e _ _ _ released
      have seat := seatStill (looked.sits _ mem).seat (still _ mem) moved
      rw [fd,idFd] at seat
      exact removes (carried looked table still moved (by rw [names,tree]) dev booked) seat last

end Unlink

end Requests

def OnNames : Req → Bool
  | .lookup .. | .mknod .. | .link .. | .create .. | .rename .. | .unlink .. | .rmdir .. => true
  | _ => false

/- The steps of a run: requests on names, with system calls that do what they are asked for. -/
def Faultless : Step → Prop
  | .request req e => OnNames req = true ∧ ∀ c, e.fault c = none
  | .restart => False

def KindFits (d : State) : Step → Prop
  | .request (.lookup parent name) _ => ∀ dir ∈ d.inode parent, Duplicable d dir name
  | .request (.unlink parent name) _ => d.conf.cached = true ∨ ∀ dir ∈ d.inode parent, Duplicable d dir name
  | .request (.mknod _ _ kind _) _ => kind ≠ .special
  | .request (.rename parent name newparent newname _) _ =>
      ∀ dir ∈ d.inode parent, ∀ ndir ∈ d.inode newparent, RenameFits d dir ndir name newname
  | _ => True
instance (d s) : Decidable (KindFits d s) := by
  unfold KindFits
  rcases s with ⟨req,_⟩ | _
  · rcases req <;> infer_instance
  · infer_instance

def SameKind (d : State) (s : Step) : Prop := Scoped d s ∧ KindFits d s
instance (d s) : Decidable (SameKind d s) := by unfold SameKind; infer_instance

theorem handleMirrored {req : Req} {e : Env Call} {d d' : State} (mirrored : Mirrored d)
    (faultless : Faultless (.request req e)) (sameKind : KindFits d (.request req e))
    (ok : handle req e d = some ((),d')) : Mirrored d' := by
  obtain ⟨onNames,calm⟩ := faultless
  cases req with
  | lookup parent name => exact lookupRequest mirrored calm sameKind ok
  | mknod parent name kind link => exact mknodRequest mirrored calm sameKind ok
  | link ino parent name => exact linkRequest mirrored ok
  | create parent name flags => exact createRequest mirrored calm ok
  | rename parent name newparent newname flags => exact renameRequest mirrored calm sameKind ok
  | unlink parent name => exact unlinkRequest mirrored calm sameKind ok
  | rmdir parent name => exact rmdirRequest mirrored calm ok
  | _ => cases onNames

theorem stepMirrored {d d' : State} {s : Step} (mirrored : Mirrored d) (guarded : SameKind d s ∧ Faultless s)
    (ok : step d s = some d') : Mirrored d' := by
  cases s with
  | restart => exact guarded.2.elim
  | request req e =>
    obtain ⟨⟨⟨⟩,d1⟩,ran,rfl⟩ := Option.map_eq_some_iff.mp ok
    refine handleMirrored (repliesMirrored mirrored []) guarded.2 ?_ ran
    have same : ∀ ref, State.inode {d with replies := []} ref = d.inode ref := fun ref => by cases ref <;> rfl
    cases req <;> simp only [SameKind,KindFits,same] at guarded ⊢ <;> exact guarded.1.2

theorem bootMirrored (opts : Options) (fs id : Volume Call)
    (empty : ∀ p x, id.tree.find p = some x → p = []) : Mirrored (boot opts fs id) := by
  have fsFile : (boot opts fs id).fs.file (.fd 0) = some ⟨fs.tree.root,none,.path⟩ := rfl
  have idFile : (boot opts fs id).id.file (.fd 0) = some ⟨id.tree.root,none,.path⟩ := rfl
  have top : ∀ (v : Volume Call), v.tree.find [] = some v.tree.root := fun v => v.tree.rooted
  have books : ∀ v : Volume Call, Books [] (bootMount v) := fun v =>
    booksInstall (fun ino => by simp [inos]) _
  refine ⟨⟨fun {q x} there => ?_,fun {q r x} one two => ?_⟩,fun h mem => ?_,fun h memH k memK _ => ?_,books fs,books id⟩
  · cases empty q x there
    cases Option.some.inj ((top id).symm.trans there)
    refine ⟨_,top fs,?_⟩
    have fsDir := fs.tree.rootDir
    have idDir := id.tree.rootDir
    simp only [Entry.isDir,decide_eq_true_eq] at fsDir idDir
    rw [fsDir,idDir]
  · rw [empty q x one,empty r x two]
  · cases List.mem_singleton.mp mem
    refine ⟨⟨fun g file => ?_,fun f file _ => ?_⟩,⟨fun n isFd => ?_,fun n isFd => ?_⟩,fun f file => ?_⟩
    · cases Option.some.inj (idFile.symm.trans file)
      refine ⟨_,fsFile,fun q there => ?_⟩
      cases empty q _ there
      exact top fs
    · intro q x _ there
      cases empty q x there
      cases Option.some.inj ((top id).symm.trans there)
      exact congrArg _ idFile
    · cases isFd
      exact Nat.zero_lt_one
    · cases isFd
      exact Nat.zero_lt_one
    · cases Option.some.inj (fsFile.symm.trans file)
      exact top fs
  · cases List.mem_singleton.mp memH
    cases List.mem_singleton.mp memK
    rfl

theorem idWithinFs {opts : Options} {fs id : Volume Call} {steps : List Step} {d : State}
    (empty : ∀ p x, id.tree.find p = some x → p = []) (faultless : ∀ s ∈ steps, Faultless s)
    (sameKind : Meets step SameKind (boot opts fs id) steps) (ran : run step (boot opts fs id) steps = some d)
    {p : List FileName} {x : Entry} (there : d.id.vol.tree.find p = some x) :
    ∃ y, d.fs.vol.tree.find p = some y ∧ y.kind = x.kind := by
  have mirrored : Mirrored d := Lib.Run.invariant _ Mirrored stepMirrored (bootMirrored opts fs id empty)
    (Lib.Run.meetsAnd sameKind (Lib.Run.meetsOfMem fun s mem _ => faultless s mem)) ran
  exact mirrored.trees.there there

def moveNested : List Step := [.request (.mknod .root nameA .dir []) (calm 5),
  .request (.create (.node 0) nameB forWriting) (calm 6),.request (.rename .root nameA .root nameB false) (calm 7)]

theorem movedWithinFs : ∃ d, run step (mounted true) moveNested = some d ∧
    d.id.vol.tree.find [nameB,nameB] = some ⟨6,.reg⟩ ∧
    ∃ y, d.fs.vol.tree.find [nameB,nameB] = some y ∧ y.kind = .reg := by
  have ends : (run step (mounted true) moveNested).any
      (fun d => d.id.vol.tree.find [nameB,nameB] = some ⟨6,.reg⟩) = true := by decide +kernel
  obtain ⟨d,ran,there⟩ := (Option.any_eq_true _ _).mp ends
  have faultless : ∀ s ∈ moveNested, Faultless s := by
    simp only [moveNested,List.forall_mem_cons]
    exact ⟨⟨rfl,fun _ => rfl⟩,⟨rfl,fun _ => rfl⟩,⟨rfl,fun _ => rfl⟩,fun _ mem => by cases mem⟩
  have empty : ∀ p x, (emptyVolume 7 ⟨[105],okI⟩).tree.find p = some x → p = [] := fun p x found =>
    congrArg Prod.fst (show (p,x) = ([],⟨2,.dir⟩) by
      simpa [emptyVolume,Lib.Tree.bare] using Lib.Tree.foundMem.mp found)
  exact ⟨d,ran,of_decide_eq_true there,
    idWithinFs empty faultless (by decide +kernel) ran (of_decide_eq_true there)⟩

def makePipe : Step := .request (.mknod .root nameA .special []) (calm 5)

theorem pipeMismatch : ∃ d, run step (mounted true) [makePipe] = some d ∧ (∀ s ∈ [makePipe], Faultless s) ∧
    d.id.vol.tree.find [nameA] = some ⟨5,.reg⟩ ∧ d.fs.vol.tree.find [nameA] = some ⟨5,.special⟩ := by
  have ends : (run step (mounted true) [makePipe]).any (fun d => d.id.vol.tree.find [nameA] = some ⟨5,.reg⟩ ∧
      d.fs.vol.tree.find [nameA] = some ⟨5,.special⟩) = true := by decide +kernel
  obtain ⟨d,ran,there⟩ := (Option.any_eq_true _ _).mp ends
  refine ⟨d,ran,fun s mem => ?_,of_decide_eq_true there⟩
  cases List.mem_singleton.mp mem
  exact ⟨rfl,fun _ => rfl⟩

end F3.Driver.Mirror
