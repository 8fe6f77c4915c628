import F3.DriverHandles
import F3.DriverAround

/-! The inodes in the table and the files they stand for, and the handle that a create
gives out. -/
namespace F3.Driver.Handles
open Lib (Bytes Arena Cell Prog Act)
open Lib.Posix

structure Seat (d : State) (c : Cell SrcId Inode) : Prop where
  linked : ∃ q entry, d.fs.vol.tree.find q = some entry ∧ entry.ino = c.key.1
  old : ∀ n, c.value.fd = .fd n → n < d.fs.next
  file : ∀ f, d.fs.file c.value.fd = some f → f.entry.ino = c.key.1

def Seated (d : State) : Prop := ∀ c ∈ d.inodes.cells, Seat d c

theorem seatAges {d d' : State} {b c : Cell SrcId Inode} (seat : Seat d b) (key : b.key = c.key)
    (fd : c.value.fd = b.value.fd) (ages : Ages d.fs d'.fs)
    (tree : ∀ {q entry}, d.fs.vol.tree.find q = some entry → d'.fs.vol.tree.find q = some entry) :
    Seat d' c := by
  obtain ⟨⟨q,entry,found,number⟩,old,file⟩ := seat
  refine ⟨⟨q,entry,tree found,by rw [number,key]⟩,fun n isN => ?_,fun f open_ => ?_⟩
  · exact Nat.lt_of_lt_of_le (old n (fd ▸ isN)) ages.next
  · obtain ⟨n,isN⟩ := fdOfFile open_
    rw [isN] at open_
    have before := ages.old (old n (fd ▸ isN)) open_
    rw [← isN,fd] at before
    rw [← key]
    exact file f before

def SameFd (i j : Inode) : Prop := j.fd = i.fd

instance : IsPreorder Inode SameFd where
  refl _ := rfl
  trans _ _ _ one two := Eq.trans two one

theorem minorSameFd : Minor SameFd := fun _ _ _ _ _ => rfl

theorem seatedTabled {d d' : State} (seated : Seated d) (table : Tabled SameFd d d') (ages : Ages d.fs d'.fs)
    (tree : d'.fs.vol.tree = d.fs.vol.tree) : Seated d' := by
  intro c mem
  obtain ⟨b,old,key,fd⟩ := table c mem
  exact seatAges (seated b old) key fd ages fun found => tree ▸ found

inductive FromLookup (parent : Ref) (name : FileName) (e : Env Call) (d d' : State) (c : Cell SrcId Inode) :
    Prop where
  | kept {b} (mem : b ∈ d.inodes.cells) (key : b.key = c.key) (fd : c.value.fd = b.value.fd)
      (isId : c.value.isId = b.value.isId)
  | built {dir up p entry} (known : d.inode parent = some dir) (at_ : d.fs.dirAt dir.fd = .ok (up,p))
      (found : d.fs.vol.tree.find (p ++ [name]) = some entry) (number : entry.ino = c.key.1)
      (fd : c.value.fd = .fd d.fs.next) (old : d.fs.next < d'.fs.next)
      (file : ∀ f, d'.fs.file c.value.fd = some f → f.entry = entry)
      (isId : c.value.isId = true → isNewHere e d.fs dir name = true ∨
        ∃ b ∈ d.inodes.cells, b.key = c.key ∧ b.value.isId = true)

theorem lookupCells {parent : Ref} {name : FileName} {e : Env Call} {d : State} {r d'}
    (ok : doLookup parent name e d = some (r,d')) :
    ∀ c ∈ d'.inodes.cells, FromLookup parent name e d d' c := by
  have others : ∀ c ∈ d.inodes.cells, FromLookup parent name e d d' c :=
    fun c mem => .kept mem rfl rfl rfl
  cases looked ok with
  | missed up nothing failed table =>
    rw [table]
    exact others
  | known up found here live plain named table =>
    rw [table]
    exact Arena.allModify (fun c mem _ => others c mem) fun c mem _ => .kept mem rfl rfl rfl
  | @built dir newfd attr c src conn up found key old entered dead plain named table =>
    rw [table]
    refine Arena.allModify (fun b mem other => others b (Arena.enterOthers entered rfl b mem other))
      fun b mem same => ?_
    cases Arena.onlyAt entered mem same
    obtain ⟨dir',up',looks⟩ := lookupOpened ok
    cases up.symm.trans up'
    obtain ⟨upEntry,p,entry,at_,there,newest,isAttr,_⟩ := resolved found
    have number : entry.ino = c.key.1 := by rw [key,isAttr]; rfl
    rcases openPathCases .lookupOpen dir.fd name e d.fs with ⟨err,opened⟩ | ⟨_,_,entry',at_',there',opened⟩
    · simp [resolve,opened] at found
    cases at_.symm.trans at_'
    cases there.symm.trans there'
    rw [opened] at looks
    have ages : Ages (d.fs.install ⟨entry,some (upEntry,name),.path⟩) d'.fs := looks.fs.ages
    refine .built up at_ there number newest (Nat.lt_of_lt_of_le (Nat.lt_succ_self _) ages.next)
      (fun f open_ => ?_) fun isId => ?_
    · have isNew : d'.fs.file (.fd d.fs.next) = some f := newest ▸ open_
      have file := ages.old (Nat.lt_succ_self _) isNew
      rw [fileInstall] at file
      cases Option.some.inj file
      rfl
    · rcases Bool.or_eq_true_iff.mp isId with before | isNew
      · rcases old with here | ⟨_,empty⟩
        · exact .inr ⟨c,(Arena.atKeyMem here).1,rfl,before⟩
        · rw [empty] at before
          cases before
      · exact .inl isNew

theorem lookupSeated {parent : Ref} {name : FileName} {e : Env Call} {d : State} {r d'} (seated : Seated d)
    (ok : doLookup parent name e d = some (r,d')) : Seated d' := by
  have quiet := (doLookupLooks parent name e d r d' ok).fs
  have tree : ∀ {q entry}, d.fs.vol.tree.find q = some entry → d'.fs.vol.tree.find q = some entry :=
    fun found => quiet.tree ▸ found
  intro c mem
  cases lookupCells ok c mem with
  | kept mem key fd _ => exact seatAges (seated _ mem) key fd quiet.ages tree
  | built known at_ found number fd old file _ =>
    refine ⟨⟨_,_,tree found,number⟩,fun n isN => ?_,fun f open_ => file f open_ ▸ number⟩
    cases fd.symm.trans isN
    exact old

inductive NewEntry (c : Call) (e : Env Call) (m m' : Mount Call) (path : List FileName) (entry : Entry) :
    Prop where
  | made (absent : m.vol.tree.find path = none) (free : m.vol.Free (e.ino c))
      (new : entry = ⟨e.ino c,.reg⟩) (empty : (m'.vol.nodes entry.ino).content = [])
      (others : ∀ {ino}, ino ≠ entry.ino → (m'.vol.nodes ino).content = (m.vol.nodes ino).content)
  | found (there : m.vol.tree.find path = some entry)
      (others : ∀ {ino}, ino ≠ entry.ino → (m'.vol.nodes ino).content = (m.vol.nodes ino).content)

theorem createMade {c : Call} {dir : Slot} {name : FileName} {flags : Flags} {e : Env Call}
    {m : Mount Call} {fd m'} (ok : openCreate c dir name flags e m = (.ok fd,m')) :
    fd = .fd m.next ∧ ∃ up p entry dentry, Entered m m' dir name up p entry ∧
      m'.file fd = some ⟨entry,dentry,flags.access⟩ ∧ NewEntry c e m m' (p ++ [name]) entry ∧
      ∀ {q x}, m'.vol.tree.find q = some x → m.vol.tree.find q = some x ∨ x = entry := by
  obtain ⟨isFd,up,p,entry,entered,_,_⟩ := createEntered ok
  refine ⟨isFd,up,p,entry,some (up,name),entered,?_⟩
  rcases openCreateCases c dir name flags e m with ⟨err,same⟩ | ⟨up',p',entry',at_,old,_,same⟩ |
    ⟨up',p',v,at_,made,same⟩ <;> rw [ok] at same
  · cases same
  · cases entered.was.symm.trans at_
    have grows := openCreateGrows c dir name flags e m
    rw [ok] at grows
    cases Option.some.inj ((grows.kept old).symm.trans entered.found)
    cases (Prod.mk.inj same).2
    have next := (clearedFiles flags m entry).2
    have content : ∀ {ino}, ino ≠ entry.ino →
        ((cleared flags m entry).vol.nodes ino).content = (m.vol.nodes ino).content :=
      fun other => clearedContent fun _ _ same => other same.symm
    refine ⟨?_,.found old content,fun {q x} here => .inl ?_⟩
    · rw [isFd,← next]
      exact fileInstall _ _
    · rw [← (clearedAlike flags m entry []).tree]
      exact here
  · cases entered.was.symm.trans at_
    cases (Prod.mk.inj same).2
    obtain ⟨free,addable,_,nodes,_⟩ := makeOk made
    have new : v.tree.find (p ++ [name]) = some ⟨e.ino c,.reg⟩ := by rw [madeFind made,if_pos rfl]
    cases Option.some.inj (new.symm.trans entered.found)
    refine ⟨?_,.made addable.2.1 free rfl ?_ fun {ino} other => ?_,fun {q x} here => ?_⟩
    · rw [isFd]
      exact fileInstall {m with vol := v} _
    · show (v.nodes _).content = []
      rw [nodes]
      simp [Volume.setNode]
    · show (v.nodes ino).content = _
      rw [nodes]
      simp only [Volume.setNode,if_neg other]
    · have here : v.tree.find q = some x := here
      rw [madeFind made] at here
      split at here
      · exact .inr (Option.some.inj here).symm
      · exact .inl here

theorem markContent (side : Side) (address : Bytes) (fd : Slot) (rootDirLen : Nat) (e : Env Call)
    (m : Mount Call) (ino : Ino) : ((f3MarkAsId side address fd rootDirLen e m).2.vol.nodes ino).content =
      (m.vol.nodes ino).content := by
  cases markedTo side address fd rootDirLen e m with
  | none same => rw [same.nodes]
  | id _ same => rw [same.nodes,idSet,setAttrContent]
  | servers _ same => rw [same.nodes,serversSet,idSet,setAttrContent,setAttrContent]
  | path _ _ _ _ same => rw [same.nodes,pathSet,serversSet,idSet,setAttrContent,setAttrContent,setAttrContent]

theorem isNewUntouched (caller : Caller) (parent : Ref) (name : FileName) :
    Prog.Keeps Untouched (f3IsNewId caller parent name) :=
  Prog.keepsBind (getInodeKeeps parent) fun dir =>
    Prog.keepsBind (quietUntouched .fs (f3IsIdQuiet caller dir.fd)) fun _ => Prog.keepsPure _

theorem chooseUntouched (parent : Ref) (name : FileName) (fd idFd : Slot) :
    Prog.Keeps Untouched (chooseCopy parent name fd idFd) :=
  chooseKeeps (isNewUntouched .handler parent name) (sysUntouched _ (markContent _ _ _ _))
    (quietUntouched .fs (closeQuiet fd)) fun _ _ side _ => by cases side <;> rfl

theorem chooseHandle {parent : Ref} {name : FileName} {fd idFd : Slot} {e : Env Call} {d : State} {fh d'}
    {f g} (ok : chooseCopy parent name fd idFd e d = some (fh,d')) (fs : d.fs.file fd = some f)
    (id : d.id.file idFd = some g) : ∃ b d1, f3IsNewId .handler parent name e d = some (b,d1) ∧
      (b = true ∧ fh = ⟨.id,idFd⟩ ∧ d'.id.file idFd = some g ∨
        b = false ∧ fh = ⟨.fs,fd⟩ ∧ d'.fs.file fd = some f) := by
  obtain ⟨b,d1,asked,states⟩ := chooseSome ok
  refine ⟨b,d1,asked,?_⟩
  obtain ⟨dir,_,_,isD1⟩ := f3IsNewIdSome asked
  obtain ⟨b',d1',asked',rest⟩ := Prog.bindSome ok
  cases asked.symm.trans asked'
  rcases states with ⟨rfl,rfl⟩ | ⟨rfl,both⟩
  · obtain ⟨rfl,_⟩ := Prog.pureSome rest
    refine .inr ⟨rfl,rfl,?_⟩
    rw [isD1]
    exact heldFile (f3IsIdHeld .handler dir.fd e d.fs) fs
  · obtain ⟨_,_,_,rest⟩ := Prog.bindSome rest
    obtain ⟨_,_,_,rest⟩ := Prog.bindSome rest
    obtain ⟨_,_,_,rest⟩ := Prog.bindSome rest
    obtain ⟨_,_,_,rest⟩ := Prog.bindSome rest
    obtain ⟨_,_,_,rest⟩ := Prog.bindSome rest
    obtain ⟨rfl,_⟩ := Prog.pureSome rest
    refine .inl ⟨rfl,rfl,?_⟩
    rw [both.id,isD1]
    exact heldFile (f3MarkAsIdHeld .id _ idFd _ e d.id) id

theorem finishSteady (fh : Handle) (r : Except Errno EntryParam) : Prog.Keeps Steady (finishCreate fh r) := by
  cases r with
  | error err => exact replySteady _
  | ok x => exact replyCreateKeeps (fun _ => setInodeSteady _ fun _ => ⟨rfl,rfl,rfl⟩) replySteady x fh

theorem finishUntouched (fh : Handle) (r : Except Errno EntryParam) :
    Prog.Keeps Untouched (finishCreate fh r) := by
  cases r with
  | error err => exact replyUntouched _
  | ok x =>
    refine replyCreateKeeps (fun _ => Prog.keepsModify fun d side ino => ?_) replyUntouched x fh
    rw [setInodeMount]

theorem createChose {parent : Ref} {name : FileName} {flags : Flags} {dir : Inode} {e : Env Call} {d : State}
    {fd m idFd n fh d1} (opened : openCreate (.create .fs) dir.fd name flags e d.fs = (.ok fd,m))
    (openedId : openCreate (.create .id) dir.idFd name flags e d.id = (.ok idFd,n))
    (chosen : chooseCopy parent name fd idFd e {d with fs := m, id := n} = some (fh,d1)) :
    Around d.fs.next d.id.next {d with fs := m, id := n} d1 ∧ Steady d d1 := by
  have heldFs := openCreateHeld (.create .fs) dir.fd name flags e d.fs
  have heldId := openCreateHeld (.create .id) dir.idFd name flags e d.id
  rw [opened] at heldFs
  rw [openedId] at heldId
  obtain ⟨rfl,_⟩ := createEntered opened
  have around : Around d.fs.next d.id.next {d with fs := m, id := n} d1 :=
    chooseAround (Nat.le_refl _) e _ fh d1 chosen
  exact ⟨around,steadyTable around.inodes
    (trans_of (Held d.fs.next) heldFs (around.held heldFs.next))
    (trans_of (Held d.id.next) heldId (around.heldId heldId.next))⟩

theorem createSteady {parent : Ref} {name : FileName} {flags : Flags} {e : Env Call} {d d' : State}
    (ok : sfsCreate parent name flags e d = some ((),d')) : Steady d d' := by
  obtain ⟨dir,_,ran⟩ := createSome ok
  have keep := refl_of (Held d.id.next) d.id
  cases ran with
  | noFs same =>
    rw [same]
    exact steadyTable rfl (refl_of (Held d.fs.next) d.fs) keep
  | noId opened failed same =>
    have held := openCreateHeld (.create .fs) dir.fd name flags e d.fs
    rw [opened] at held
    rw [same]
    exact steadyTable rfl held keep
  | chosen opened openedId chosen lookup finish =>
    have first := (createChose opened openedId chosen).2
    exact trans_of Steady first (trans_of Steady (lookupSteady lookup) (finishSteady _ _ e _ _ _ finish))

theorem finishTabled (fh : Handle) (r : Except Errno EntryParam) :
    Prog.Keeps (Tabled SameFd) (finishCreate fh r) := by
  cases r with
  | error err => exact replyTabled _
  | ok x => exact replyCreateTabled minorSameFd x fh

theorem finishNamed (fh : Handle) (r : Except Errno EntryParam) (attr : Bytes) :
    Prog.Keeps (Named attr) (finishCreate fh r) := by
  cases r with
  | error err => exact replyNamed _
  | ok x => exact replyCreateNamed x fh

theorem createSeated {parent : Ref} {name : FileName} {flags : Flags} {e : Env Call} {d d' : State}
    (seated : Seated d) (ok : sfsCreate parent name flags e d = some ((),d')) : Seated d' := by
  obtain ⟨dir,_,ran⟩ := createSome ok
  cases ran with
  | noFs same =>
    rw [same]
    exact fun c mem => ⟨(seated c mem).linked,(seated c mem).old,(seated c mem).file⟩
  | noId opened failed same =>
    have held := openCreateHeld (.create .fs) dir.fd name flags e d.fs
    have grows := openCreateGrows (.create .fs) dir.fd name flags e d.fs
    rw [opened] at held grows
    rw [same]
    exact fun c mem => seatAges (seated c mem) rfl rfl (heldAges held) fun found => grows.kept found
  | @chosen fd m idFd n fh d1 r d2 opened openedId chosen lookup finish =>
    obtain ⟨around,steady⟩ := createChose opened openedId chosen
    have grows := openCreateGrows (.create .fs) dir.fd name flags e d.fs
    rw [opened] at grows
    have first : Seated d1 := by
      rw [Seated,around.inodes]
      exact fun c mem => seatAges (seated c mem) rfl rfl (heldAges steady.fs) fun found => by
        rw [around.tree]
        exact grows.kept found
    refine seatedTabled (lookupSeated first lookup) (finishTabled fh r e d2 _ d' finish)
      (heldAges (finishSteady fh r e d2 _ d' finish).fs) (finishNamed fh r [] e d2 _ d' finish).fs.tree

theorem untouchedSpares {d d' : State} (same : Untouched d d') (tree : d'.id.vol.tree = d.id.vol.tree) :
    Spares d.id d'.id :=
  ⟨fun found => tree ▸ found,fun _ => same .id _⟩

theorem createEnds {parent : Ref} {name : FileName} {fd idFd : Slot} {e : Env Call} {d : State} {m n fh d1 r d2 d'}
    (chosen : chooseCopy parent name fd idFd e {d with fs := m, id := n} = some (fh,d1))
    (around : Around d.fs.next d.id.next {d with fs := m, id := n} d1)
    (lookup : doLookup parent name e d1 = some (r,d2)) (finish : finishCreate fh r e d2 = some ((),d')) :
    d'.fs.vol.tree = m.vol.tree ∧ Spares n d'.id := by
  have named := finishNamed fh r [] e d2 _ d' finish
  have looks := doLookupLooks parent name e d1 r d2 lookup
  refine ⟨named.fs.tree.trans (looks.fs.tree.trans around.tree),?_⟩
  have first : Spares n d1.id := untouchedSpares (chooseUntouched parent name fd idFd e _ fh d1 chosen) around.idTree
  have last := untouchedSpares (finishUntouched fh r e d2 _ d' finish) named.id.tree
  exact trans_of Spares first (trans_of Spares (lookupSpares lookup) last)

theorem markKeepsMarked {side : Side} {address : Bytes} {fd : Slot} {rootDirLen : Nat} {e : Env Call}
    {m : Mount Call} {ino : Ino} (yes : marked m.vol ino = true) :
    marked (f3MarkAsId side address fd rootDirLen e m).2.vol ino = true := by
  have names : f3Id ≠ f3Servers ∧ f3Id ≠ f3Filepath := by decide
  have set : ∀ f : File, marked (idSet m f.entry.ino).vol ino = true := by
    intro f
    simp only [marked,idSet,setAttrXattr]
    by_cases here : ino = f.entry.ino
    · simp [here,trueText]
    · simpa [here,marked] using yes
  cases markedTo side address fd rootDirLen e m with
  | none same => simpa only [marked,same.nodes] using yes
  | id _ same => simpa only [marked,same.nodes] using set _
  | @servers f _ same => simpa [marked,same.nodes,serversSet,setAttrXattr,names] using set f
  | @path f _ _ _ _ _ same => simpa [marked,same.nodes,pathSet,serversSet,setAttrXattr,names] using set f

section Create
variable {parent : Ref} {name : FileName} {flags : Flags} {dir : Inode} {e : Env Call} {d d' : State}
  {fd m idFd n fh d1 r d2 up p entry idUp q idEntry f g}

theorem createParent (known : d.inode parent = some dir)
    (around : Around d.fs.next d.id.next {d with fs := m, id := n} d1) : d1.inode parent = some dir := by
  cases parent with
  | root => exact (congrArg some around.root).trans known
  | node a => exact (congrArg (fun t => (t.atAddr a).map Cell.value) around.inodes).trans known

theorem createIsId (tests : Tests e) (isNew : isNewId d.fs dir name = true)
    (known : d.inode parent = some dir) (entered : Entered d.fs m dir.fd name up p entry)
    (grows : Grows d.fs m) (fs : m.file fd = some f) (id : n.file idFd = some g)
    (chosen : chooseCopy parent name fd idFd e {d with fs := m, id := n} = some (fh,d1))
    (around : Around d.fs.next d.id.next {d with fs := m, id := n} d1) :
    fh = ⟨.id,idFd⟩ ∧ isNewHere e d1.fs dir name = true := by
  obtain ⟨_,_,_,_,above⟩ := dirAtFile entered.was
  have now : Choice.idName m.vol up name = true := by
    rw [Choice.isNewIdAt entered.was] at isNew
    simpa [Choice.idName,marked,grows.xattr above] using isNew
  have known' : State.inode {d with fs := m, id := n} parent = some dir := by cases parent <;> exact known
  obtain ⟨b,u,asked,outcome⟩ := chooseHandle chosen fs id
  obtain ⟨isB,isU⟩ := Choice.newIdExact tests known' entered.now asked
  rcases outcome with ⟨_,rfl,_⟩ | ⟨no,_⟩
  · refine ⟨rfl,?_⟩
    have still := (entered.still (around.held entered.held.next) around.tree).1
    rw [Choice.isNewHereExact tests still]
    rcases Bool.or_eq_true_iff.mp now with dirMarked | suffix
    · obtain ⟨b',u',asked',states⟩ := chooseSome chosen
      cases asked.symm.trans asked'
      rcases states with ⟨no,_⟩ | ⟨_,both⟩
      · exact absurd (isB.symm.trans no) (by rw [now]; decide)
      · have quiet : marked u.fs.vol up.ino = true := by
          rw [isU]
          simpa only [State.setMount,marked,(f3IsIdQuiet .handler dir.fd e m).nodes] using dirMarked
        have after : marked d1.fs.vol up.ino = true := by
          rw [both.fs]
          simpa only [marked,(closeQuiet fd e _).nodes] using markKeepsMarked quiet
        simp [Choice.idName,after]
    · simp [Choice.idName,suffix]
  · exact absurd (isB.symm.trans no) (by rw [now]; decide)

theorem lookupCell {x : EntryParam} (known : d.inode parent = some dir) (at_ : d.fs.dirAt dir.fd = .ok (up,p))
    (found : d.fs.vol.tree.find (p ++ [name]) = some entry)
    (ok : doLookup parent name e d = some (.ok x,d')) : ∃ a c, x.ino = some a ∧
      d'.inodes.atAddr a = some c ∧ c.value.Live ∧ c.key.1 = entry.ino ∧
      ((∀ b ∈ d.inodes.cells, b.key.1 ≠ entry.ino) →
        c.value.size = 0 ∧ c.value.isId = isNewHere e d.fs dir name) := by
  cases foundAs known at_ found ok with
  | @known c src resolves here live named table =>
    obtain ⟨mem,key⟩ := Arena.atKeyMem here
    have number : c.key.1 = entry.ino := by rw [key]
    rw [table]
    exact ⟨c.addr,_,named,Arena.atAddrModify (Arena.memAtAddr mem),live,number,
      fun none => absurd number (none c mem)⟩
  | @built c src conn resolves key old entered dead named table =>
    have number : c.key.1 = entry.ino := by rw [key]
    rw [table]
    refine ⟨c.addr,_,named,Arena.atAddrModify entered,?_,number,fun none => ?_⟩
    · simp [Inode.Live,Inode.built,Inode.fill]
    · have empty := (old.resolve_left fun here => none c (Arena.atKeyMem here).1 number).2
      simp [Inode.built,Inode.fill,empty]

theorem createGrip (fresh : d.replies = []) (known : d.inode parent = some dir)
    (entered : Entered d.fs m dir.fd name up p entry)
    (chosen : chooseCopy parent name fd idFd e {d with fs := m, id := n} = some (fh,d1))
    (around : Around d.fs.next d.id.next {d with fs := m, id := n} d1)
    (lookup : doLookup parent name e d1 = some (r,d2)) (finish : finishCreate fh r e d2 = some ((),d')) :
    Handless d'.replies ∨ ∃ x a c, d'.replies = [.create x fh] ∧ x.ino = some a ∧
      d'.inodes.atAddr a = some c ∧ c.value.Live ∧ c.key.1 = entry.ino ∧
      ((∀ b ∈ d.inodes.cells, b.key.1 ≠ entry.ino) →
        c.value.size = 0 ∧ c.value.isId = isNewHere e d1.fs dir name) := by
  have mute : d2.replies = [] := (Service.lookupMute parent name e d1 r d2 lookup).trans
    ((Service.chooseMute parent name fd idFd e _ fh d1 chosen).trans fresh)
  obtain ⟨at_,found⟩ := entered.still (around.held entered.held.next) around.tree
  cases r with
  | error err =>
    left
    rw [replySome finish,mute]
    simp [Handless,gripOf]
  | ok x =>
    obtain ⟨a,c,isA,here,live,number,new⟩ := lookupCell (createParent known around) at_ found lookup
    have ran : replyCreate x fh e d2 = some ((),d') := finish
    unfold replyCreate at ran
    simp only [isA] at ran
    obtain ⟨_,u,first,rest⟩ := Prog.bindSome ran
    obtain ⟨rfl,_⟩ := getInodeSome first
    cases Option.some.inj rest
    refine .inr ⟨x,a,_,?_,isA,Arena.atAddrModify here,live,number,fun none => new fun b mem => ?_⟩
    · show u.replies ++ _ = _
      rw [mute]
      rfl
    · rw [around.inodes] at mem
      exact none b mem

theorem createHandle (fs : m.file fd = some f) (id : n.file idFd = some g) (isFd : fd = .fd d.fs.next)
    (isIdFd : idFd = .fd d.id.next)
    (chosen : chooseCopy parent name fd idFd e {d with fs := m, id := n} = some (fh,d1))
    (lookup : doLookup parent name e d1 = some (r,d2)) (finish : finishCreate fh r e d2 = some ((),d')) :
    fh.fd = .fd (d.mount fh.side).next ∧ ∃ h, (d'.mount fh.side).file fh.fd = some h ∧
      (fh.side = .id → h = g) := by
  have rest : Steady d1 d' := trans_of Steady (lookupSteady lookup) (finishSteady fh r e d2 _ d' finish)
  obtain ⟨b,u,_,⟨_,rfl,file⟩ | ⟨_,rfl,file⟩⟩ := chooseHandle chosen fs id
  · exact ⟨isIdFd,g,heldFile rest.id file,fun _ => rfl⟩
  · exact ⟨isFd,f,heldFile rest.fs file,fun wrong => by cases wrong⟩

end Create

end F3.Driver.Handles
