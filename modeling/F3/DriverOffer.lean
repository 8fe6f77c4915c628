import F3.DriverTrees

/-! Which files a consumer can ask a server for: what create, mknod, rename and link leave
at a name that makes the file there an ID file. -/
namespace F3.Driver.Offer
open Lib (Bytes Arena Cell Prog)
open Lib.Prog (bindSome pureSome)
open Lib.Posix
open Trees (CopyThere)

def destination : Req → Option (Ref × FileName)
  | .create parent name _ => some (parent,name)
  | .mknod parent name _ _ => some (parent,name)
  | .rename _ _ newparent newname _ => some (newparent,newname)
  | .link _ parent name => some (parent,name)
  | _ => none

def Carries (v : Volume Call) (ino : Ino) : Prop :=
  ∀ attr ∈ [f3Id,f3Servers,f3Filepath], (v.nodes ino).xattr attr ≠ none

/- A file that a consumer can ask for: it says where it comes from, and the inode that
the node itself has for it, if any, is not to be downloaded. -/
def Offered (d : State) (ino : Ino) : Prop := Carries d.fs.vol ino ∧
  ∀ c, d.inodes.atKey (ino,d.fs.vol.dev) = some c → c.value.needsDownload = false

-- The calls of a mark that have to succeed for an attribute to be set.
def markCalls (attr : Bytes) : List MarkCall :=
  if attr = f3Id then [.openFd,.setId]
  else if attr = f3Servers then [.openFd,.setId,.setServers]
  else [.openFd,.setId,.setServers,.readLink,.setPath]

def Sets (e : Env Call) (attr : Bytes) : Prop := ∀ call ∈ markCalls attr, e.fault (.mark .fs call) = none
instance (e attr) : Decidable (Sets e attr) := by unfold Sets; infer_instance

/- A create offers the file if each attribute was there or is set now, and the inode neither wants a download
nor gets to want one: the lookup takes an ENOENT for a copy that is missing. -/
def Offers (e : Env Call) (d : State) : Req → Prop
  | .create parent name flags => ∃ dir ∈ d.inode parent, ∃ up p, d.fs.dirAt dir.fd = .ok (up,p) ∧
      (∀ attr ∈ [f3Id,f3Servers,f3Filepath],
        (∃ old ∈ d.fs.vol.tree.find (p ++ [name]), (d.fs.vol.nodes old.ino).xattr attr ≠ none) ∨
        Sets e attr ∧ (attr = f3Filepath → flags.access ≠ .path ∧
          (absolute (d.fs.vol.mount ++ (p ++ [name]))).length < 4096)) ∧
      ∃ ino ∈ createdIno (.create .fs) d.fs dir.fd name e,
        (slotted d (ino,d.fs.vol.dev)).needsDownload = false ∧
        ((slotted d (ino,d.fs.vol.dev)).Live ∨ e.fault .lookupOpenId ≠ some .enoent)
  | .rename parent name _ _ _ => ∃ dir ∈ d.inode parent, ∃ entry ∈ foundAt d.fs dir.fd name, Offered d entry.ino
  | .link ino _ _ => ∃ i ∈ d.inode ino, ∃ f ∈ d.fs.file i.fd, Offered d f.entry.ino
  | _ => False

-- What the kernel makes of the replies: the first one answers the request.
def Succeeds (t : State) : Prop := (match t.replies with
  | [] => false
  | .err (some _)::_ => false
  | _ => true) = true
instance (t) : Decidable (Succeeds t) := by unfold Succeeds; infer_instance

theorem failedReply {d : State} {err : Errno} (fresh : d.replies = []) {t : State}
    (same : t.replies = d.replies ++ [.err (some err)]) (ok : Succeeds t) : False := by
  simp [Succeeds,same,fresh] at ok

theorem leftXattr {e : Env Call} {m : Mount Call} {f : File} (address : Bytes) (rootDirLen : Nat) {attr : Bytes}
    (mem : attr ∈ [f3Id,f3Servers,f3Filepath]) :
    ((marksLeft .fs e m f address rootDirLen).vol.nodes f.entry.ino).xattr attr ≠ none ↔
      (m.vol.nodes f.entry.ino).xattr attr ≠ none ∨
        Sets e attr ∧ (attr = f3Filepath → recorded m f rootDirLen ≠ none) := by
  have apart : f3Id ≠ f3Servers ∧ f3Id ≠ f3Filepath ∧ f3Servers ≠ f3Filepath := by decide
  have sets : Sets e attr ↔ e.fault (.mark .fs .openFd) = none ∧ e.fault (.mark .fs .setId) = none ∧ (attr = f3Id ∨
      e.fault (.mark .fs .setServers) = none ∧ (attr = f3Servers ∨
        e.fault (.mark .fs .readLink) = none ∧ e.fault (.mark .fs .setPath) = none)) := by
    unfold Sets markCalls
    split_ifs <;> simp_all
  rw [sets]
  unfold marksLeft
  simp only [List.mem_cons,List.not_mem_nil,or_false] at mem
  split_ifs with early middle late
  · tauto
  · simp only [idSet,setAttrXattr,true_and]
    split_ifs <;> simp_all
  · simp only [serversSet,idSet,setAttrXattr,true_and]
    split_ifs <;> simp_all
    tauto
  · cases recorded m f rootDirLen <;> simp only [markSet,pathSet,serversSet,idSet,setAttrXattr,true_and] <;>
      split_ifs <;> simp_all

theorem offeredIff {d : State} {ino : Ino} : Offered d ino ↔
    Carries d.fs.vol ino ∧ (slotted d (ino,d.fs.vol.dev)).needsDownload = false := by
  refine and_congr_right fun _ => ?_
  unfold slotted
  cases d.inodes.atKey (ino,d.fs.vol.dev) with
  | none => simp
  | some c => simp

theorem slottedSet (d : State) (ref : Ref) {f : Inode → Inode}
    (keeps : ∀ i, (f i).needsDownload = i.needsDownload) (key : SrcId) :
    (slotted (d.setInode ref f) key).needsDownload = (slotted d key).needsDownload := by
  cases ref with
  | root => rfl
  | node a =>
    simp only [slotted,State.setInode,Arena.atKeyUpdate]
    cases d.inodes.atKey key with
    | none => rfl
    | some c =>
      simp only [Option.map_some,Option.getD_some,Arena.update]
      split
      · exact keeps _
      · rfl

theorem copyFlag {e : Env Call} {m : Mount Call} {idDir : Slot} {name : FileName}
    (there : CopyThere m idDir name) :
    (openIdCopy idDir name .reg e m).1.2 = true ↔ e.fault .lookupOpenId = some .enoent := by
  obtain ⟨up,q,entry,at_,found⟩ := there
  cases fault : e.fault .lookupOpenId with
  | none => simp [openIdCopy,bind,openPathFinds fault at_ found,makeIdCopy,pure]
  | some err =>
    have failed : openPath .lookupOpenId idDir name e m = (.error err,m) := by simp [openPath,syscall,fault]
    cases err <;> simp [openIdCopy,bind,failed,makeIdCopy,pure]

theorem lookupSlotted {parent : Ref} {name : FileName} {e : Env Call} {d : State} {dir x d'} {entry : Entry}
    (known : d.inode parent = some dir) (ok : doLookup parent name e d = some (.ok x,d'))
    (found : foundAt d.fs dir.fd name = some entry) (kind : entry.kind = .reg)
    (there : CopyThere d.id dir.idFd name) (isNew : isNewHere e d.fs dir name = true) :
    (slotted d' (entry.ino,d.fs.vol.dev)).needsDownload = false ↔
      (slotted d (entry.ino,d.fs.vol.dev)).needsDownload = false ∧
      ((slotted d (entry.ino,d.fs.vol.dev)).Live ∨ e.fault .lookupOpenId ≠ some .enoent) := by
  have attrOf : ∀ {newfd attr}, resolve e d.fs d.conf.srcDev dir name = some (newfd,attr) →
      attr = d.fs.vol.stat entry := by
    intro newfd attr here
    obtain ⟨_,other,rfl,_,_,also,_⟩ := resolveExact.mp here
    cases found.symm.trans also
    rfl
  cases looked ok with
  | missed _ _ failed _ =>
    obtain ⟨err,wrong⟩ := failed
    cases wrong
  | @known dir' newfd attr c src up resolves here live plain named table =>
    cases known.symm.trans up
    cases attrOf resolves
    have here : d.inodes.atKey (entry.ino,d.fs.vol.dev) = some c := here
    simp [slotted,table,Arena.atKeyUpdate,here,Arena.update,live]
  | @built dir' newfd attr c src conn up resolves key old entered dead plain named table =>
    cases known.symm.trans up
    cases attrOf resolves
    have isKey : c.key = (entry.ino,d.fs.vol.dev) := key
    have copy : (openIdCopy dir.idFd name (d.fs.vol.stat entry).kind e d.id).1.2 = true ↔
        e.fault .lookupOpenId = some .enoent := by
      rw [show (d.fs.vol.stat entry).kind = .reg from kind]
      exact copyFlag there
    have slot : slotted d (entry.ino,d.fs.vol.dev) = c.value := isKey ▸ slottedCell old
    have now : (slotted d' c.key).needsDownload = (c.value.needsDownload ||
        (openIdCopy dir.idFd name (d.fs.vol.stat entry).kind e d.id).1.2) := by
      simp [slotted,table,Arena.atKeyModify entered,Inode.built,Inode.fill,isNew]
    rw [← isKey,now,isKey,slot,Bool.or_eq_false_iff,← Bool.not_eq_true (openIdCopy _ _ _ _ _).1.2,copy]
    simp [dead]

theorem createdAccess {c : Call} {dir : Slot} {name flags e} {m : Mount Call} {fd m' f}
    (ok : openCreate c dir name flags e m = (.ok fd,m')) (known : m'.file fd = some f) :
    f.access = flags.access := by
  rcases openCreateCases c dir name flags e m with
    ⟨_,same⟩ | ⟨_,_,_,_,_,_,same⟩ | ⟨_,_,_,_,_,same⟩ <;> rw [ok] at same <;> cases same
  · have here := known.symm.trans ((clearedFiles flags m _).2 ▸ fileInstall (cleared flags m _) _)
    cases here
    rfl
  · cases known.symm.trans (fileInstall _ _)
    rfl

theorem newIdExact {parent : Ref} {name : FileName} {e : Env Call} {d : State} {dir up p b d1}
    (known : d.inode parent = some dir) (at_ : d.fs.dirAt dir.fd = .ok (up,p)) (tests : Tests e)
    (ran : f3IsNewId .handler parent name e d = some (b,d1)) :
    b = isNewId d.fs dir name ∧ d1 = {d with fs := (f3IsId .handler dir.fd e d.fs).2} := by
  obtain ⟨g,file,same,isDir,_⟩ := dirAtFile at_
  have filled : parent ≠ .root → dir.fd ≠ .closed := fun _ => (dirAtLive at_).1
  rw [f3IsNewIdEq (getInodeEq e known filled)] at ran
  cases Option.some.inj ran
  have kind : g.entry.kind = .dir := by simpa [Entry.isDir,same] using isDir
  refine ⟨?_,rfl⟩
  rw [f3IsIdExact tests file (Or.inl kind)]
  simp [isNewId,file]

theorem choseMarks {parent : Ref} {name : FileName} {e : Env Call} {d : State} {dir fd idFd fh d1 up p f}
    (chosen : chooseCopy parent name fd idFd e d = some (fh,d1)) (known : d.inode parent = some dir)
    (at_ : d.fs.dirAt dir.fd = .ok (up,p)) (isNew : isNewId d.fs dir name = true) (tests : Tests e)
    (opened : d.fs.file fd = some f) (dentry : f.dentry = some (up,name)) (kind : f.entry.kind = .reg) :
    (∀ attr ∈ [f3Id,f3Servers,f3Filepath], (d1.fs.vol.nodes f.entry.ino).xattr attr ≠ none ↔
      (d.fs.vol.nodes f.entry.ino).xattr attr ≠ none ∨ Sets e attr ∧ (attr = f3Filepath →
        f.access ≠ .path ∧ (absolute (d.fs.vol.mount ++ (p ++ [name]))).length < 4096)) ∧
    (marked d.fs.vol up.ino = true → marked d1.fs.vol up.ino = true) := by
  obtain ⟨b,u,asked,rest⟩ := chooseSome chosen
  obtain ⟨rfl,rfl⟩ := newIdExact known at_ tests asked
  rcases rest with ⟨plain,_⟩ | ⟨_,marks⟩
  · rw [isNew] at plain
    cases plain
  · let m := (f3IsId .handler dir.fd e d.fs).2
    have quiet : Quiet d.fs m := f3IsIdQuiet .handler dir.fd e d.fs
    have still : m.file fd = some f := heldFile (f3IsIdHeld .handler dir.fd e d.fs) opened
    obtain ⟨_,_,same,isDir,placed⟩ := dirAtFile at_
    have place : m.filePath f = some (p ++ [name]) := by
      simp [Mount.filePath,dentry,quiet.tree,Lib.Tree.pathOfDir placed isDir]
    have done := @marksLeave .fs fd e m f d.conf.address d.conf.source.length still (Or.inr kind)
    have nodes : d1.fs.vol.nodes = (marksLeft .fs e m f d.conf.address d.conf.source.length).vol.nodes := by
      rw [marks.fs]
      exact (closeQuiet fd e _).nodes.trans done.nodes
    refine ⟨fun attr mem => ?_,fun isMarked => ?_⟩
    · rw [nodes,leftXattr _ _ mem,quiet.nodes]
      simp [recorded,place,quiet.mount]
    · have still : marked m.vol up.ino = true := by rw [← isMarked,marked,marked,quiet.nodes]
      rw [marks.fs,markedAlike ((closeQuiet fd e _).alike f3Id)]
      rcases (markedTo .fs d.conf.address fd d.conf.source.length e m).idAlike with same | ⟨g,_,set⟩
      · exact (markedAlike same up.ino).trans still
      · refine (markedAlike set up.ino).trans ?_
        unfold marked idSet
        rw [setAttrXattr]
        split_ifs
        · rfl
        · exact still

theorem isNewIdKept {m m' : Mount Call} {dir : Inode} {name : FileName} {up p} (grows : Grows m m')
    (was : m.dirAt dir.fd = .ok (up,p)) (now : m'.dirAt dir.fd = .ok (up,p)) :
    isNewId m' dir name = isNewId m dir name := by
  obtain ⟨f,file,rfl,_,placed⟩ := dirAtFile was
  obtain ⟨g,fileNow,same,_,_⟩ := dirAtFile now
  simp [isNewId,file,fileNow,same,marked,grows.xattr placed]

theorem createdXattr {c : Call} {dir : Slot} {name flags e} {m m' : Mount Call} {fd up p entry attr}
    (ok : openCreate c dir name flags e m = (.ok fd,m')) (at_ : m.dirAt dir = .ok (up,p))
    (found : m'.vol.tree.find (p ++ [name]) = some entry) : (m'.vol.nodes entry.ino).xattr attr ≠ none ↔
      ∃ old ∈ m.vol.tree.find (p ++ [name]), (m.vol.nodes old.ino).xattr attr ≠ none := by
  obtain ⟨up',p',f,was,_,_,_,_,there,origin⟩ := openCreateOk ok
  cases was.symm.trans at_
  cases there.symm.trans found
  rcases origin with ⟨old,alike⟩ | ⟨v,made,quiet⟩
  · simp [old,(alike attr).xattr]
  · obtain ⟨_,⟨_,absent,_⟩,_,nodes,_⟩ := makeOk made
    simp [absent,quiet.nodes,nodes,Volume.setNode]

theorem isNewNow {e : Env Call} {m n : Mount Call} {dir : Inode} {name : FileName} {up p} (tests : Tests e)
    (was : m.dirAt dir.fd = .ok (up,p)) (now : n.dirAt dir.fd = .ok (up,p)) (isNew : isNewId m dir name = true)
    (keeps : marked m.vol up.ino = true → marked n.vol up.ino = true) : isNewHere e n dir name = true := by
  obtain ⟨f,before,rfl,_,_⟩ := dirAtFile was
  obtain ⟨g,file,same,isDir,_⟩ := dirAtFile now
  have quiet := openPathQuiet .lookupOpen dir.fd name e n
  have still := heldFile (openPathHeld .lookupOpen dir.fd name e n) file
  have kind : g.entry.kind = .dir := by simpa [Entry.isDir,same] using isDir
  rw [isNewHere,f3IsIdExact tests still (Or.inl kind),markedAlike (quiet.alike f3Id),same]
  simp only [isNewId,before,Bool.or_eq_true] at isNew ⊢
  exact isNew.imp_left keeps

theorem replyCreateSlotted {x : EntryParam} {fh : Handle} {e : Env Call} {d t : State} {key : SrcId}
    (ran : replyCreate x fh e d = some ((),t)) : (slotted t key).needsDownload = (slotted d key).needsDownload := by
  unfold replyCreate at ran
  cases ino : x.ino with
  | none => simp [ino,Prog.abort] at ran
  | some addr =>
    simp only [ino] at ran
    obtain ⟨_,u,got,rest⟩ := bindSome ran
    obtain ⟨rfl,_,_⟩ := getInodeSome got
    obtain ⟨_,v,set,last⟩ := bindSome rest
    cases Option.some.inj set
    rw [replySome last]
    exact @slottedSet u (.node addr) (fun i => {i with nopen := i.nopen + 1}) (fun _ => rfl) key

theorem createOffered {parent : Ref} {name : FileName} {flags : Flags} {e : Env Call} {d t : State}
    {dir up p entry} (fresh : d.replies = []) (ran : sfsCreate parent name flags e d = some ((),t)) (tests : Tests e)
    (ok : Succeeds t) (known : d.inode parent = some dir) (at_ : d.fs.dirAt dir.fd = .ok (up,p))
    (isNew : isNewId d.fs dir name = true) (found : t.fs.vol.tree.find (p ++ [name]) = some entry) :
    Offered t entry.ino ↔ Offers e d (.create parent name flags) := by
  obtain ⟨dir',known',outcome⟩ := createSome ran
  cases known.symm.trans known'
  cases outcome with
  | noFs same => exact (failedReply fresh (congrArg State.replies same) ok).elim
  | noId _ _ same => exact (failedReply fresh (congrArg State.replies same) ok).elim
  | @chosen fd m idFd n fh d1 r d2 opened openedId chosen lookup finish =>
    obtain ⟨up',p',f,was,now,file,dentry,kind,there,_⟩ := openCreateOk opened
    cases was.symm.trans at_
    obtain ⟨rfl,_,_,_,entered,_⟩ := createEntered opened
    cases entered.was.symm.trans at_
    obtain ⟨_,idUp,q,idEntry,enteredId,_⟩ := createEntered openedId
    have around : Around d.fs.next d.id.next _ d1 := chooseAround (Nat.le_refl _) e _ fh d1 chosen
    have table : ({d with fs := m, id := n} : State).inode parent = some dir := by cases parent <;> exact known
    have knownNow : d1.inode parent = some dir := (aroundInode around parent).trans table
    have copy : CopyThere d1.id dir.idFd name := by
      obtain ⟨at1,found1⟩ := enteredId.still (around.heldId enteredId.held.next) around.idTree
      exact ⟨idUp,q,idEntry,at1,found1⟩
    have looks := doLookupLooks parent name e d1 r d2 lookup
    have mute : d2.replies = [] := by
      have still : Service.Known {d with fs := m, id := n} parent := ⟨dir,table,fun _ => (dirAtLive at_).1⟩
      exact (Service.lookupMute parent name e d1 r d2 lookup).trans
        ((Service.plainRan (Service.plainChoose name _ idFd still) chosen).1.trans fresh)
    cases r with
    | error err => exact (failedReply mute (congrArg State.replies (replySome finish)) ok).elim
    | ok x =>
      obtain ⟨sameFs,_,_⟩ := replyCreateSome finish
      have tree : t.fs.vol.tree = m.vol.tree := sameFs ▸ looks.fs.tree.trans around.tree
      rw [tree,there] at found
      cases found
      have dev1 : d1.fs.vol.dev = d.fs.vol.dev := around.dev.trans entered.dev
      have dev : t.fs.vol.dev = d1.fs.vol.dev := sameFs ▸ looks.fs.dev
      have grows : Grows d.fs m := by
        have all := openCreateGrows (.create .fs) dir.fd name flags e d.fs
        rwa [opened] at all
      obtain ⟨at1,found1⟩ := entered.still (around.held entered.held.next) around.tree
      cases there.symm.trans entered.found
      obtain ⟨attrs,keepsMark⟩ := choseMarks chosen table now ((isNewIdKept grows at_ now).trans isNew) tests file
        dentry kind
      have newNow := isNewNow tests at_ at1 isNew fun isMarked => keepsMark (by
        obtain ⟨_,_,_,_,placed⟩ := dirAtFile at_
        rw [← isMarked,marked,marked,grows.xattr placed])
      have wants := lookupSlotted knownNow lookup ((foundAtPath at1).trans found1) kind copy newNow
      have slot : slotted d1 (f.entry.ino,d1.fs.vol.dev) = slotted d (f.entry.ino,d.fs.vol.dev) := by
        rw [slotted,slotted,around.inodes,dev1]
      have number := createdNumber opened at_ there
      have carries : Carries t.fs.vol f.entry.ino ↔ ∀ attr ∈ [f3Id,f3Servers,f3Filepath],
          (∃ old ∈ d.fs.vol.tree.find (p ++ [name]), (d.fs.vol.nodes old.ino).xattr attr ≠ none) ∨
          Sets e attr ∧ (attr = f3Filepath → flags.access ≠ .path ∧
            (absolute (d.fs.vol.mount ++ (p ++ [name]))).length < 4096) := by
        refine forall₂_congr fun attr mem => ?_
        rw [sameFs,looks.fs.nodes,attrs attr mem,createdAccess opened file,createdXattr opened at_ there]
        simp only [grows.mount]
      rw [offeredIff,dev,replyCreateSlotted finish,wants,slot,carries]
      constructor
      · rintro ⟨all,inode⟩
        exact ⟨dir,known,up,p,at_,all,f.entry.ino,number,inode⟩
      · rintro ⟨dir',known',up',p',at',all,ino,number',inode⟩
        cases known.symm.trans known'
        cases at_.symm.trans at'
        cases number.symm.trans number'
        exact ⟨all,inode⟩

theorem renameDone {parent newparent : Ref} {name newname : FileName} {flags : Bool} {e : Env Call}
    {d t : State} (fresh : d.replies = [])
    (ran : sfsRename parent name newparent newname flags e d = some ((),t)) (ok : Succeeds t) :
    ∃ dir ndir m, d.inode parent = some dir ∧ d.inode newparent = some ndir ∧
      renameAt (.rename .fs) dir.fd name ndir.fd newname e d.fs = (.ok (),m) ∧ t.fs = m ∧ t.inodes = d.inodes := by
  obtain ⟨dir,u,first,rest⟩ := bindSome ran
  obtain ⟨rfl,known,_⟩ := getInodeSome first
  obtain ⟨ndir,v,second,last⟩ := bindSome rest
  obtain ⟨rfl,nknown,_⟩ := getInodeSome second
  cases flags with
  | true => exact (failedReply fresh (congrArg State.replies (replySome last)) ok).elim
  | false =>
    have runs := (Trees.bothRun _ _ replyErr e v).symm.trans last
    rcases call : renameAt (.rename .fs) dir.fd name ndir.fd newname e v.fs with ⟨r,m⟩
    rw [call] at runs
    obtain ⟨replies,same⟩ := replyErrSome runs
    cases r with
    | ok _ => exact ⟨dir,ndir,m,known,nknown,call,congrArg State.fs same,by rw [same]⟩
    | error err =>
      obtain ⟨rest,more⟩ := (Trees.closesReply e).replies runs
      simp [Succeeds,← more,fresh,Trees.firstError] at ok

theorem offeredSame {d t : State} {ino : Ino} (nodes : t.fs.vol.nodes = d.fs.vol.nodes)
    (dev : t.fs.vol.dev = d.fs.vol.dev) (table : ∀ key,
      (slotted t key).needsDownload = (slotted d key).needsDownload) : Offered t ino ↔ Offered d ino := by
  rw [offeredIff,offeredIff,table,dev]
  simp only [Carries,nodes]

theorem renameOffered {parent newparent : Ref} {name newname : FileName} {flags : Bool} {e : Env Call}
    {d t : State} {ndir up q entry} (fresh : d.replies = [])
    (ran : sfsRename parent name newparent newname flags e d = some ((),t)) (ok : Succeeds t)
    (known : d.inode newparent = some ndir) (at_ : d.fs.dirAt ndir.fd = .ok (up,q))
    (found : t.fs.vol.tree.find (q ++ [newname]) = some entry) :
    Offered t entry.ino ↔ Offers e d (.rename parent name newparent newname flags) := by
  obtain ⟨dir,ndir',m,knownDir,known',call,rfl,table⟩ := renameDone fresh ran ok
  cases known.symm.trans known'
  obtain ⟨up1,p,up2,q',v,source,target,moved,same⟩ :=
    Trees.okCase (renameAtCases (.rename .fs) dir.fd name ndir.fd newname e d.fs) call
  have after : t.fs.vol = v := congrArg (fun r => r.2.vol) (call.symm.trans same)
  rw [after] at found
  cases at_.symm.trans target
  have before : d.fs.vol.tree.find (p ++ [name]) = some entry := by
    rcases renameOk moved with ⟨rfl,both⟩ | ⟨_,_,_,find⟩
    · exact both.trans found
    · rw [find] at found
      simpa using found
  have nodes : v.nodes = d.fs.vol.nodes := by
    rcases renameOk moved with ⟨rfl,_⟩ | ⟨nodes,_⟩
    · rfl
    · exact nodes
  rw [offeredSame (after ▸ nodes) (after ▸ renameDev moved) fun key => by simp [slotted,table]]
  simp only [Offers,Trees.memAt knownDir,Trees.memAt ((foundAtPath source).trans before)]

theorem linkDone {ino parent : Ref} {name : FileName} {e : Env Call} {d t : State}
    (fresh : d.replies = []) (ran : sfsLink ino parent name e d = some ((),t)) (ok : Succeeds t) :
    ∃ i dir m, d.inode ino = some i ∧ d.inode parent = some dir ∧
      linkAt (.link .fs) i.fd dir.fd name e d.fs = (.ok (),m) ∧ t.fs = m ∧
      ∀ key, (slotted t key).needsDownload = (slotted d key).needsDownload := by
  obtain ⟨i,u,first,rest⟩ := bindSome ran
  obtain ⟨rfl,known,_⟩ := getInodeSome first
  obtain ⟨dir,v,second,body⟩ := bindSome rest
  obtain ⟨rfl,knownDir,_⟩ := getInodeSome second
  obtain ⟨made,w,calls,last⟩ := bindSome body
  obtain ⟨r,x,linked,calls⟩ := bindSome calls
  obtain ⟨isR,rfl⟩ := sysSome linked
  rcases call : linkAt (.link .fs) i.fd dir.fd name e v.fs with ⟨r',m⟩
  simp only [State.mount,State.setMount,call] at isR calls
  subst isR
  cases r with
  | error err =>
    obtain ⟨rfl,rfl⟩ := pureSome calls
    exact (failedReply fresh (congrArg State.replies (replySome last)) ok).elim
  | ok _ =>
    refine ⟨i,dir,m,known,knownDir,call,?_⟩
    have kept : w.fs = m ∧ w.inodes = v.inodes ∧ w.replies = v.replies := by
      obtain ⟨r,x,linked,calls⟩ := bindSome calls
      obtain ⟨_,rfl⟩ := sysSome linked
      cases r with
      | error err =>
        rw [(pureSome calls).2]
        exact ⟨rfl,rfl,rfl⟩
      | ok _ =>
        rw [(sysSome calls).2]
        rw [fstatState]
        cases i.side <;> exact ⟨rfl,rfl,rfl⟩
    cases made with
    | error err =>
      exact (failedReply (kept.2.2.trans fresh) (congrArg State.replies (replySome last)) ok).elim
    | ok attr =>
      obtain ⟨_,y,counted,last⟩ := bindSome last
      cases Option.some.inj counted
      rw [replySome last]
      refine ⟨?_,fun key => ?_⟩
      · cases ino <;> exact kept.1
      · have counts := @slottedSet w ino (fun i => {i with nlookup := i.nlookup + 1}) (fun _ => rfl) key
        refine Eq.trans ?_ (counts.trans ?_)
        · rfl
        · simp [slotted,kept.2.1]

theorem linkOffered {ino parent : Ref} {name : FileName} {e : Env Call} {d t : State} {dir up q entry}
    (fresh : d.replies = []) (ran : sfsLink ino parent name e d = some ((),t)) (ok : Succeeds t)
    (known : d.inode parent = some dir) (at_ : d.fs.dirAt dir.fd = .ok (up,q))
    (found : t.fs.vol.tree.find (q ++ [name]) = some entry) :
    Offered t entry.ino ↔ Offers e d (.link ino parent name) := by
  obtain ⟨i,dir',m,knownI,known',call,rfl,table⟩ := linkDone fresh ran ok
  cases known.symm.trans known'
  obtain ⟨f,up',q',v,file,target,linked,same⟩ :=
    Trees.okCase (linkAtCases (.link .fs) i.fd dir.fd name e d.fs) call
  have after : t.fs.vol = v := congrArg (fun r => r.2.vol) (call.symm.trans same)
  cases at_.symm.trans target
  obtain ⟨_,_,nodes,_,_,find⟩ := linkOk linked
  rw [after,find,if_pos rfl] at found
  cases found
  rw [offeredSame (after ▸ nodes) (after ▸ linkDev linked) table]
  simp only [Offers,Trees.memAt knownI,Trees.memAt file]

theorem mknodIdTree {parent : Ref} {dir : Inode} {name : FileName} {kind : Kind} {link : Bytes}
    {e : Env Call} {d : State} {r t} (ran : mknodId parent dir name kind link e d = some (r,t)) :
    t.fs.vol.tree = d.fs.vol.tree := by
  have two : kind = .dir ∨ kind = .lnk → t.fs.vol.tree = d.fs.vol.tree := by
    intro two
    obtain ⟨_,_,_,_,⟨_,rfl⟩ | ⟨_,around⟩⟩ := mknodIdMade two ran
    · rfl
    · exact (around 0 0).tree
  cases kind with
  | dir => exact two (Or.inl rfl)
  | lnk => exact two (Or.inr rfl)
  | reg => rw [(pureSome ran).2]
  | special => rw [(pureSome ran).2]

theorem mknodOffered {parent : Ref} {name : FileName} {kind : Kind} {link : Bytes} {e : Env Call}
    {d t : State} {dir up q entry} (fresh : d.replies = [])
    (ran : mknodSymlink parent name kind link e d = some ((),t)) (ok : Succeeds t)
    (known : d.inode parent = some dir) (at_ : d.fs.dirAt dir.fd = .ok (up,q))
    (found : t.fs.vol.tree.find (q ++ [name]) = some entry) (isReg : entry.kind = .reg) : ¬ Offered t entry.ino := by
  obtain ⟨dir',u,first,rest⟩ := bindSome ran
  obtain ⟨rfl,known',_⟩ := getInodeSome first
  cases known.symm.trans known'
  obtain ⟨answer,w,calls,last⟩ := bindSome rest
  obtain ⟨r,x,made,calls⟩ := bindSome calls
  obtain ⟨isR,rfl⟩ := sysSome made
  rcases call : makeAt (.mknod .fs) dir.fd name kind link e u.fs with ⟨r',m⟩
  simp only [State.mount,State.setMount,call] at isR calls
  subst isR
  cases r with
  | error err =>
    obtain ⟨rfl,rfl⟩ := pureSome calls
    exact (failedReply fresh (congrArg State.replies (replySome last)) ok).elim
  | ok _ =>
    have said : t.fs = w.fs := by cases answer <;> rw [replySome last]
    obtain ⟨r,y,copied,calls⟩ := bindSome calls
    obtain ⟨up',q',entered⟩ := makeEntered call
    cases entered.was.symm.trans at_
    obtain ⟨_,_,v,_,done,rfl⟩ := makeAtOk call
    have tree : w.fs.vol.tree = v.tree := by
      cases r with
      | error err =>
        rw [(pureSome calls).2]
        exact mknodIdTree copied
      | ok _ => exact (doLookupLooks parent name e y answer w calls).fs.tree.trans (mknodIdTree copied)
    rw [said,tree,show v.tree.find (q ++ [name]) = some _ from entered.found] at found
    cases found
    -- nothing of the request marks the file: it is made without attributes
    cases show kind = .reg from isReg
    obtain ⟨rfl,rfl⟩ := pureSome copied
    have nodes := (doLookupLooks parent name e _ answer w calls).fs.nodes
    rintro ⟨carries,_⟩
    refine carries f3Id (by simp) ?_
    obtain ⟨_,_,_,fresh,_⟩ := makeOk done
    rw [said,nodes,fresh]
    simp [Volume.setNode]

end F3.Driver.Offer
