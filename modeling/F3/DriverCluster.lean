import F3.DriverChoice

/-! Several nodes over one source tree, and the choice between the copies over whole
runs. Every inode that a request builds for a file made by sfs_create stands for the copy
that the file's attribute says, as long as no step parts a name from its file's mark. -/
namespace F3.Driver.Choice
open Lib (Bytes Arena Cell Prog Act Tree)
open Lib.Prog (keepsBind bindSome pureSome)
open Lib.Posix
open Lib.Run (run Meets)

structure Answers (d d' : State) : Prop where
  sorted : Sorted d'.fs.vol
  awake : Awake d'
  each : ∀ c ∈ d'.inodes.cells, (∃ b ∈ d.inodes.cells, b.key = c.key) ∨ Right d'.fs.vol c

def Wakes (i j : Inode) : Prop := i.Live → j.Live

instance : IsPreorder Inode Wakes where
  refl _ := id
  trans _ _ _ one two := fun live => two (one live)

def Stays (i j : Inode) : Prop := i.isId = j.isId ∧ (i.Live → j.Live)

instance : IsPreorder Inode Stays where
  refl _ := ⟨rfl,id⟩
  trans _ _ _ one two := ⟨one.1.trans two.1,fun live => two.2 (one.2 live)⟩

theorem minorWakes : Minor Wakes := fun _ _ _ _ _ => id
theorem minorStays : Minor Stays := fun _ _ _ _ _ => ⟨rfl,id⟩

theorem awakeSame {d d' : State} (table : d'.inodes = d.inodes) (awake : Awake d) : Awake d' := by
  unfold Awake
  rw [table]
  exact awake

theorem tabledAnswers {d d' : State} (sorted : Sorted d'.fs.vol) (awake : Awake d)
    (kept : Tabled Wakes d d') : Answers d d' := by
  refine ⟨sorted,fun c mem => ?_,fun c mem => ?_⟩
  · obtain ⟨b,memB,_,wakes⟩ := kept c mem
    exact wakes (awake b memB)
  · obtain ⟨b,memB,key,_⟩ := kept c mem
    exact Or.inl ⟨b,memB,key⟩

theorem namedAnswers {d d' : State} (sorted : Sorted d.fs.vol) (awake : Awake d)
    (named : Named f3Id d d') (kept : Tabled Wakes d d') : Answers d d' :=
  tabledAnswers (sortedAlike named.fs sorted) awake kept

theorem chosenAnswers {d d1 d' : State} (sorted : Sorted d1.fs.vol) (same : d1.inodes = d.inodes)
    (chosen : Chosen d1 d') : Answers d d' := by
  refine ⟨sortedAlike chosen.fs sorted,chosen.awake,fun c mem => ?_⟩
  rw [← same]
  exact (chosen.each c mem).imp (fun ⟨b,memB,key,_⟩ => ⟨b,memB,key⟩) id

theorem chosenTabled {d d' : State} (awake : Awake d) (named : Named f3Id d d')
    (kept : Tabled Stays d d') : Chosen d d' := by
  refine ⟨named.fs,fun c mem => ?_,fun c mem => ?_⟩
  · obtain ⟨b,memB,_,stays⟩ := kept c mem
    exact stays.2 (awake b memB)
  · obtain ⟨b,memB,key,stays⟩ := kept c mem
    exact Or.inl ⟨b,memB,key,stays.1⟩

theorem chosenThen {α : Type} {p : Handler α} {e} {d d1 : State} {a d'} (chosen : Chosen d d1)
    (named : Prog.Keeps (Named f3Id) p) (kept : Prog.Keeps (Tabled Stays) p)
    (ok : p e d1 = some (a,d')) : Chosen d d' :=
  chosen.trans (chosenTabled chosen.awake (named e d1 a d' ok) (kept e d1 a d' ok))

theorem lookupThen {α : Type} {p : Except Errno EntryParam → Handler α} {parent name e} {d : State}
    {a d'} (tests : Tests e) (sorted : Sorted d.fs.vol) (awake : Awake d)
    (named : ∀ r, Prog.Keeps (Named f3Id) (p r)) (kept : ∀ r, Prog.Keeps (Tabled Stays) (p r))
    (ok : (doLookup parent name >>= p) e d = some (a,d')) : Chosen d d' := by
  obtain ⟨r,d1,lookup,rest⟩ := bindSome ok
  exact chosenThen (lookupChosen tests sorted awake lookup) (named r) (kept r) rest

theorem readdirChosen {ino e} {d : State} {stream sofar d'} (tests : ∀ x ∈ stream, Tests x.env)
    (sorted : Sorted d.fs.vol) (awake : Awake d)
    (ok : readdirLoop ino stream sofar e d = some ((),d')) : Chosen d d' := by
  induction stream generalizing d sofar with
  | nil =>
    exact chosenTabled awake (replyNamed _ _ _ _ _ ok) (replyTabled _ _ _ _ _ ok)
  | cons x rest ih =>
    obtain ⟨r,d1,lookup,ok⟩ := bindSome ok
    have chosen := lookupChosen (tests x List.mem_cons_self) sorted awake lookup
    cases r with
    | error err => exact chosenThen chosen (replyNamed _) (replyTabled _) ok
    | ok entry =>
      simp only at ok
      split at ok
      · exact chosen.trans (ih (fun y mem => tests y (List.mem_cons_of_mem x mem))
          (sortedAlike chosen.fs sorted) chosen.awake ok)
      · exact chosenThen chosen (keepsBind (forgetEntryNamed entry) fun _ => replyNamed _)
          (keepsBind (forgetEntryTabled minorStays entry) fun _ => replyTabled _) ok

theorem newIdExact {caller parent name e} {d : State} {dir up p b d'} (tests : Tests e)
    (known : d.inode parent = some dir) (at_ : d.fs.dirAt dir.fd = .ok (up,p))
    (ok : f3IsNewId caller parent name e d = some (b,d')) :
    b = idName d.fs.vol up name ∧ d' = d.setMount .fs (f3IsId caller dir.fd e d.fs).2 := by
  obtain ⟨_,same,rfl,rfl⟩ := f3IsNewIdSome ok
  cases Option.some.inj (known.symm.trans same)
  obtain ⟨f,there,rfl,isDir,_⟩ := dirAtFile at_
  have kind : f.entry.kind = .dir := by simpa [Entry.isDir] using isDir
  exact ⟨by rw [f3IsIdExact tests there (Or.inl kind),idName],rfl⟩

theorem chooseSorted {parent name fd idFd e} {d : State} {dir up p f fh d'} (tests : Tests e)
    (known : d.inode parent = some dir) (at_ : d.fs.dirAt dir.fd = .ok (up,p))
    (opened : d.fs.file fd = some f) (kind : f.entry.kind = .reg)
    (plain : idName d.fs.vol up name = false → Sorted d.fs.vol)
    (mark : idName d.fs.vol up name = true → Markable d.fs.vol f.entry ∧
      e.fault (.mark .fs .openFd) = none ∧ e.fault (.mark .fs .setId) = none)
    (ok : chooseCopy parent name fd idFd e d = some (fh,d')) :
    Sorted d'.fs.vol ∧ d'.inodes = d.inodes := by
  obtain ⟨b,d1,asked,outcome⟩ := chooseSome ok
  obtain ⟨same,rfl⟩ := newIdExact tests known at_ asked
  have quiet := f3IsIdQuiet .handler dir.fd e d.fs
  have still := heldFile (f3IsIdHeld .handler dir.fd e d.fs) opened
  rcases outcome with ⟨rfl,rfl⟩ | ⟨rfl,both⟩
  · exact ⟨sortedAlike (quiet.alike f3Id) (plain same.symm),rfl⟩
  · obtain ⟨ready,opens,sets⟩ := mark same.symm
    refine ⟨?_,both.inodes⟩
    have done := markSorted (markableAlike (quiet.alike f3Id) ready)
    rw [both.fs]
    exact sortedAlike ((closeQuiet fd e _).alike f3Id)
      (sortedAlike (marksId still (Or.inr kind) opens sets) done)

theorem isNewIdAt {m : Mount Call} {dir : Inode} {up p} (at_ : m.dirAt dir.fd = .ok (up,p))
    (name : FileName) : isNewId m dir name = idName m.vol up name := by
  obtain ⟨f,known,rfl,_⟩ := dirAtFile at_
  simp [isNewId,known,idName]

theorem createOpened {dir : Inode} {name flags e} {m : Mount Call} {fd m'} (sorted : Sorted m.vol)
    (ok : openCreate (.create .fs) dir.fd name flags e m = (.ok fd,m')) :
    ∃ up p f, m.dirAt dir.fd = .ok (up,p) ∧ m'.dirAt dir.fd = .ok (up,p) ∧ m'.file fd = some f ∧
      f.entry.kind = .reg ∧ idName m'.vol up name = idName m.vol up name ∧
      (idName m.vol up name = false → Sorted m'.vol) ∧
      (idName m.vol up name = true → Markable m'.vol f.entry) := by
  obtain ⟨up,p,f,at_,still,file,_,kind,_,outcome⟩ := openCreateOk ok
  obtain ⟨_,_,_,_,above⟩ := dirAtFile at_
  refine ⟨up,p,f,at_,still,file,kind,?_⟩
  rcases outcome with ⟨found,alike⟩ | ⟨v,made,quiet⟩
  · have notDir : f.entry.isDir = false := by simp [Entry.isDir,kind]
    exact ⟨idNameSame ((alike f3Id).xattr _) name,fun _ => sortedAlike (alike f3Id) sorted,
      fun new => markableAlike (alike f3Id) (existingMarkable sorted above found notDir new)⟩
  · obtain ⟨_,_,old⟩ := madeHere made
    have alike := quiet.alike f3Id
    have regular : f.entry = ⟨f.entry.ino,.reg⟩ := by rw [← kind]
    refine ⟨?_,fun plain => ?_,fun new => ?_⟩
    · rw [idNameSame (v := v) (alike.xattr _),idNameSame (v := m.vol) (by rw [(old up above).2])]
    · refine sortedAlike alike (makeSorted made sorted fun _ dir found => ?_)
      cases Option.some.inj (above.symm.trans found)
      exact plain
    · rw [regular]
      exact markableAlike alike (newMarkable made sorted above new)

def createMarks (d : State) (parent : Ref) (name : FileName) (flags : Flags) (e : Env Call) : Prop :=
  match d.inode parent with
  | none => True
  | some dir => isNewId d.fs dir name = true →
      e.fault (.mark .fs .openFd) = none ∧ e.fault (.mark .fs .setId) = none ∧
      (openCreate (.create .id) dir.idFd name flags e d.id).1.isOk = true

theorem createAnswers {parent name flags e} {d d' : State} (tests : Tests e)
    (marks : createMarks d parent name flags e) (sorted : Sorted d.fs.vol) (awake : Awake d)
    (ok : sfsCreate parent name flags e d = some ((),d')) : Answers d d' := by
  obtain ⟨dir,known,ran⟩ := createSome ok
  simp only [createMarks,known] at marks
  have same : ∀ {u : State}, u.inodes = d.inodes → Tabled Wakes d u := fun same => sameTabled same
  cases ran with
  | noFs unchanged =>
    subst unchanged
    exact tabledAnswers sorted awake (same rfl)
  | noId opened failed unchanged =>
    obtain ⟨up,p,f,at_,_,_,_,_,plain,_⟩ := createOpened sorted opened
    subst unchanged
    refine tabledAnswers (plain ?_) awake (same rfl)
    cases new : idName d.fs.vol up name with
    | false => rfl
    | true =>
      obtain ⟨_,_,opens⟩ := marks ((isNewIdAt at_ name).trans new)
      obtain ⟨err,failed⟩ := failed
      rw [failed] at opens
      contradiction
  | @chosen fd m idFd n fh d1 r d2 opened openedId chosen lookup finish =>
    obtain ⟨up,p,f,at_,still,file,kind,class_,plain,ready⟩ := createOpened sorted opened
    let u : State := {d with fs := m, id := n}
    have atU : u.inode parent = some dir := by cases parent <;> exact known
    obtain ⟨sorted1,table⟩ := @chooseSorted parent name fd idFd e u dir up p f fh d1 tests atU still
      file kind (fun no => plain (class_.symm.trans no)) (fun yes => by
        have new := class_.symm.trans yes
        obtain ⟨opens,sets,_⟩ := marks ((isNewIdAt at_ name).trans new)
        exact ⟨ready new,opens,sets⟩) chosen
    refine chosenAnswers sorted1 table (chosenThen
      (lookupChosen tests sorted1 (awakeSame table awake) lookup) ?_ ?_ finish)
    · cases r with
      | error err => exact replyNamed _
      | ok entry => exact replyCreateNamed entry fh
    · cases r with
      | error err => exact replyTabled _
      | ok entry => exact replyCreateTabled minorStays entry fh

structure Childless (v : Volume Call) (ino : Ino) : Prop where
  other : created v ino = false
  empty : ∀ q n up, v.tree.find q = some up → up.ino = ino → v.tree.find (q ++ [n]) = none

theorem childlessMark {m : Mount Call} {ino} (sorted : Sorted m.vol) (new : Childless m.vol ino) :
    Sorted (idSet m ino).vol := by
  intro q n up o here there made
  have before : created m.vol o.ino = true := by simpa [created,idSet,setAttrOrigin] using made
  have apart : o.ino ≠ ino := by
    intro same
    rw [same,new.other] at before
    contradiction
  have parent : up.ino ≠ ino := by
    intro same
    have absent := new.empty q n up here same
    rw [show m.vol.tree.find (q ++ [n]) = some o from there] at absent
    contradiction
  rw [idNameSame (v := m.vol) (by simp [idSet,setAttrXattr,parent]),
    ← sorted q n up o here there before]
  simp [carries,idSet,setAttrXattr,apart]

theorem madeChildless {v w : Volume Call} {origin ino kind content p name}
    (done : v.make origin ino kind content p name = .ok w) (other : origin ≠ .create .fs) :
    Childless w ino := by
  obtain ⟨here,node,_⟩ := madeHere done
  obtain ⟨free,ok,tree,_⟩ := makeOk done
  refine ⟨by simpa [created,node] using other,fun q n up found same => ?_⟩
  have only : q = p ++ [name] := by
    by_contra elsewhere
    rw [tree,Tree.findAdd,if_neg elsewhere] at found
    exact free.2 _ (Tree.foundMem.mp found) same
  have longer : ¬ q ++ [n] = p ++ [name] := by simp [only]
  rw [tree,Tree.findAdd,if_neg longer,only]
  exact Tree.absentBelow ok.2.1 [n]

theorem childlessQuiet {m m' : Mount Call} {ino} (quiet : Quiet m m') (new : Childless m.vol ino) :
    Childless m'.vol ino := by
  refine ⟨by simpa [created,quiet.nodes] using new.other,?_⟩
  rw [quiet.tree]
  exact new.empty

theorem markDirSorted {dir : Inode} {name e} {d d' : State} (sorted : Sorted d.fs.vol)
    (new : ∀ up p o, d.fs.dirAt dir.fd = .ok (up,p) → d.fs.vol.tree.find (p ++ [name]) = some o →
      Childless d.fs.vol o.ino)
    (ok : markDir .fs dir name e d = some ((),d')) : Sorted d'.fs.vol ∧ d'.inodes = d.inodes := by
  obtain ⟨m,rfl,quiet | ⟨up,p,entry,m1,at_,found,marks,quiet⟩⟩ := markDirSome ok
  · exact ⟨sortedAlike (quiet.alike f3Id) sorted,rfl⟩
  · refine ⟨sortedAlike (quiet.alike f3Id) ?_,rfl⟩
    have install := installQuiet d.fs ⟨entry,some (up,name),.path⟩
    have sorted1 := sortedAlike (install.alike f3Id) sorted
    rcases marks.idAlike with alike | ⟨f,known,alike⟩
    · exact sortedAlike alike sorted1
    · cases Option.some.inj ((fileInstall d.fs _).symm.trans known)
      exact sortedAlike alike (childlessMark sorted1 (childlessQuiet install (new up p entry at_ found)))

theorem mknodIdSorted {parent dir name kind link e} {d : State} {r d' up p entry}
    (at_ : d.fs.dirAt dir.fd = .ok (up,p))
    (here : d.fs.vol.tree.find (p ++ [name]) = some entry) (new : Childless d.fs.vol entry.ino)
    (sorted : Sorted d.fs.vol) (ok : mknodId parent dir name kind link e d = some (r,d')) :
    Sorted d'.fs.vol ∧ d'.inodes = d.inodes := by
  cases kind with
  | reg =>
    rw [(pureSome ok).2]
    exact ⟨sorted,rfl⟩
  | special =>
    rw [(pureSome ok).2]
    exact ⟨sorted,rfl⟩
  | lnk =>
    rw [(sysSome ok).2]
    exact ⟨sorted,rfl⟩
  | dir =>
    obtain ⟨made,d1,call,ok⟩ := bindSome ok
    obtain ⟨n,rfl⟩ : ∃ n, d1 = {d with id := n} := ⟨_,(sysSome call).2⟩
    cases made with
    | error err =>
      rw [(pureSome ok).2]
      exact ⟨sorted,rfl⟩
    | ok _ =>
      obtain ⟨b,d2,asked,ok⟩ := bindSome ok
      obtain ⟨_,d3,marking,ok⟩ := bindSome ok
      rw [(pureSome ok).2]
      obtain ⟨m,rfl,quiet⟩ := newIdSome asked
      have sorted2 := sortedAlike (quiet.alike f3Id) sorted
      unfold Prog.onlyIf at marking
      split at marking
      · obtain ⟨_,d4,one,two⟩ := bindSome marking
        have fresh : ∀ up' p' o, m.dirAt dir.fd = .ok (up',p') →
            m.vol.tree.find (p' ++ [name]) = some o → Childless m.vol o.ino := by
          intro up' p' o again found
          cases dirAtGrows quiet.grows at_ again
          rw [quiet.tree] at found
          cases Option.some.inj (here.symm.trans found)
          exact childlessQuiet quiet new
        obtain ⟨sorted4,table⟩ := markDirSorted sorted2 fresh one
        obtain ⟨n,rfl,_⟩ := markDirSome two
        exact ⟨sorted4,table⟩
      · rw [(pureSome marking).2]
        exact ⟨sorted2,rfl⟩

theorem mknodSorted {parent dir name kind link e} {d : State} {m r d1} (sorted : Sorted d.fs.vol)
    (made : makeAt (.mknod .fs) dir.fd name kind link e d.fs = (.ok (),m))
    (copied : mknodId parent dir name kind link e {d with fs := m} = some (r,d1)) :
    Sorted d1.fs.vol ∧ d1.inodes = d.inodes := by
  obtain ⟨up,p,v,at_,done,rfl⟩ := makeAtOk made
  obtain ⟨here,_,old⟩ := madeHere done
  obtain ⟨_,_,_,_,above⟩ := dirAtFile at_
  let u : State := {d with fs := {d.fs with vol := v}}
  have held : Held d.fs.next d.fs u.fs := sameHeld rfl rfl
  exact @mknodIdSorted parent dir name kind link e u r d1 up p _
    (heldDir held (old up above).1 at_) here (madeChildless done (by simp))
    (makeSorted done sorted (by simp)) copied

theorem mknodAnswers {parent name kind link e} {d d' : State} (tests : Tests e)
    (sorted : Sorted d.fs.vol) (awake : Awake d)
    (ok : mknodSymlink parent name kind link e d = some ((),d')) : Answers d d' := by
  obtain ⟨dir,known,ran⟩ := mknodSome ok
  cases ran with
  | noFs same =>
    subst same
    exact tabledAnswers sorted awake (sameTabled rfl)
  | noId made failed same =>
    obtain ⟨sorted1,table⟩ := mknodSorted sorted made failed
    subst same
    exact tabledAnswers sorted1 awake (sameTabled table)
  | looked made copied lookup same =>
    obtain ⟨sorted1,table⟩ := mknodSorted sorted made copied
    subst same
    obtain ⟨fs,live,each⟩ := lookupChosen tests sorted1 (awakeSame table awake) lookup
    exact chosenAnswers sorted1 table ⟨fs,live,each⟩

def linkFits (d : State) (ino parent : Ref) (name : FileName) : Prop :=
  match d.inode ino,d.inode parent with
  | some inode,some dir => match d.fs.file inode.fd,d.fs.dirAt dir.fd with
      | some f,.ok (up,_) => Fits d.fs.vol up name f.entry
      | _,_ => True
  | _,_ => True

def renameFits (d : State) (parent : Ref) (name : FileName) (newparent : Ref) (newname : FileName) :
    Prop :=
  match d.inode parent,d.inode newparent with
  | some dir,some ndir => match d.fs.dirAt dir.fd,d.fs.dirAt ndir.fd with
      | .ok (_,p),.ok (up,_) => match d.fs.vol.tree.find (p ++ [name]) with
          | some entry => Fits d.fs.vol up newname entry
          | none => True
      | _,_ => True
  | _,_ => True

def mayUnmark (d : State) (ino : Ref) : Prop := match d.inode ino with
  | some inode => match d.fs.file inode.fd with
      | some f => carries d.fs.vol f.entry.ino = true → Unmarkable d.fs.vol f.entry.ino
      | none => True
  | none => True

theorem linkAnswers {ino parent name e} {d d' : State} (fits : linkFits d ino parent name)
    (sorted : Sorted d.fs.vol) (awake : Awake d) (ok : sfsLink ino parent name e d = some ((),d')) :
    Answers d d' := by
  have kept := (tabledNames minorWakes).link ino parent name _ _ _ _ ok
  obtain ⟨inode,dir,known,knownP,_,_,fs,_⟩ := linkSome ok
  refine tabledAnswers ?_ awake kept
  rw [fs]
  rcases linkAtCases (.link .fs) inode.fd dir.fd name e d.fs with
    ⟨err,same⟩ | ⟨f,up,p,v,file,at_,linked,same⟩
  · rw [same]
    exact sorted
  · rw [same]
    simp only [linkFits,known,knownP,file,at_] at fits
    obtain ⟨_,_,_,_,above⟩ := dirAtFile at_
    exact linkSorted linked above fits sorted

theorem renameAnswers {parent name newparent newname flags e} {d d' : State}
    (fits : renameFits d parent name newparent newname) (sorted : Sorted d.fs.vol) (awake : Awake d)
    (ok : sfsRename parent name newparent newname flags e d = some ((),d')) : Answers d d' := by
  have kept := (tabledNames minorWakes).rename parent name newparent newname flags _ _ _ _ ok
  obtain ⟨dir,ndir,known,known',⟨replies,same⟩ | ⟨_,both⟩⟩ := renameSome ok
  · refine tabledAnswers ?_ awake kept
    rw [same]
    exact sorted
  · refine tabledAnswers ?_ awake kept
    rw [both.fs]
    rcases renameAtCases (.rename .fs) dir.fd name ndir.fd newname e d.fs with
      ⟨err,same⟩ | ⟨_,p,up,q,v,at_,there,renamed,same⟩
    · rw [same]
      exact sorted
    · rw [same]
      simp only [renameFits,known,known',at_,there] at fits
      obtain ⟨_,_,_,_,above⟩ := dirAtFile there
      refine renameSorted renamed above (fun o found => ?_) sorted
      simpa only [found] using fits

theorem removedSorted {c : Call} {slot : Slot} {name rmdir e} {m : Mount Call} (sorted : Sorted m.vol) :
    Sorted (unlinkAt c slot name rmdir e m).2.vol := by
  rcases unlinkAtCases c slot name rmdir e m with ⟨err,same⟩ | ⟨up,p,v,_,removed,same⟩
  · rw [same]
    exact sorted
  · rw [same]
    exact removeSorted removed sorted

theorem rmdirAnswers {parent name e} {d d' : State} (sorted : Sorted d.fs.vol) (awake : Awake d)
    (ok : sfsRmdir parent name e d = some ((),d')) : Answers d d' := by
  have kept := (tabledNames minorWakes).rmdir parent name _ _ _ _ ok
  obtain ⟨dir,_,both⟩ := rmdirSome ok
  refine tabledAnswers ?_ awake kept
  rw [both.fs]
  exact removedSorted sorted

theorem unlinkAnswers {parent name e} {d d' : State} (cached : d.conf.cached = true)
    (sorted : Sorted d.fs.vol) (awake : Awake d) (ok : sfsUnlink parent name e d = some ((),d')) :
    Answers d d' := by
  obtain ⟨dir,d0,first,rest⟩ := bindSome ok
  obtain ⟨rfl,_,_⟩ := getInodeSome first
  obtain ⟨_,_,got,body⟩ := bindSome rest
  cases Option.some.inj got
  rw [if_pos cached] at body
  refine tabledAnswers ?_ awake ((tabledNames minorWakes).unlink dir name _ _ _ _ body)
  rw [(unlinkBothSome body).fs]
  exact removedSorted sorted

theorem removexattrAnswers {ino name e} {d d' : State} (may : name = f3Id → mayUnmark d ino)
    (sorted : Sorted d.fs.vol) (awake : Awake d) (ok : sfsRemovexattr ino name e d = some ((),d')) :
    Answers d d' := by
  have kept := removexattrTabled (R := Wakes) (fun _ => id) ino name _ _ _ _ ok
  refine tabledAnswers ?_ awake kept
  by_cases mark : name = f3Id
  · obtain ⟨inode,d0,first,rest⟩ := bindSome ok
    obtain ⟨rfl,known,_⟩ := getInodeSome first
    obtain ⟨r,d1,removed,tail⟩ := bindSome rest
    obtain ⟨_,rfl⟩ := sysSome removed
    obtain ⟨_,d2,said,tail⟩ := bindSome tail
    obtain ⟨_,rfl⟩ := replyFirstSome said
    obtain ⟨_,d3,removedId,tail⟩ := bindSome tail
    obtain ⟨_,rfl⟩ := sysSome removedId
    obtain ⟨_,d4,said,tail⟩ := bindSome tail
    obtain ⟨_,rfl⟩ := replyFirstSome said
    obtain ⟨_,d5,converted,last⟩ := bindSome tail
    have named : Named f3Id _ d5 :=
      Prog.keepsIte (makeIdFsNamed ino) (Prog.keepsPure _) _ _ _ _ converted
    rw [replySome last]
    refine sortedAlike named.fs ?_
    show Sorted (removexattrAt (.removexattr .fs) inode.fd name e d0.fs).2.vol
    rcases removexattrAtCases (.removexattr .fs) inode.fd name e d0.fs with
      ⟨err,same⟩ | ⟨f,value,file,present,same⟩
    · rw [same]
      exact sorted
    · rw [same,mark]
      rw [mark] at present
      have allowed := may mark
      simp only [mayUnmark,known,file] at allowed
      exact unmarkSorted sorted (allowed (by simp [carries,present]))
  · have named := @removexattrNamed f3Id name (fun same => mark same.symm) ino _ _ _ _ ok
    exact sortedAlike named.fs sorted

/- The requests under which the names of a file and its mark stay together. The tests of
the mark do not fail; a file that gets an ID name is marked; a link or a rename gives a
file made by sfs_create only names of its own class; the mark is taken from no such file
and from no directory that still makes some of them ID files. -/
def Settled (d : State) : Step → Prop
  | .request (.lookup _ _) e => Tests e
  | .request (.mknod _ _ _ _) e => Tests e
  | .request (.readdirplus _ stream) _ => ∀ x ∈ stream, Tests x.env
  | .request (.create parent name flags) e => Tests e ∧ createMarks d parent name flags e
  | .request (.link ino parent name) _ => linkFits d ino parent name
  | .request (.rename parent name newparent newname _) _ => renameFits d parent name newparent newname
  | .request (.unlink _ _) _ => d.conf.cached = true
  | .request (.setxattr _ name _ _) _ => name ≠ f3Id
  | .request (.removexattr ino name) _ => name = f3Id → mayUnmark d ino
  | _ => True

theorem handleAnswers {req e} {d d' : State} (settled : Settled d (.request req e))
    (sorted : Sorted d.fs.vol) (awake : Awake d) (ok : handle req e d = some ((),d')) :
    Answers d d' := by
  have inert : ∀ {p : Handler Unit}, Prog.Keeps (Named f3Id) p → Prog.Keeps (Tabled Wakes) p →
      p e d = some ((),d') → Answers d d' := fun named kept done =>
    namedAnswers sorted awake (named _ _ _ _ done) (kept _ _ _ _ done)
  cases req with
  | lookup parent name =>
    refine chosenAnswers sorted rfl (lookupThen settled sorted awake (fun r => ?_) (fun r => ?_) ok)
    · split <;> exact replyNamed _
    · split <;> exact replyTabled _
  | mknod parent name kind link => exact mknodAnswers settled sorted awake ok
  | link ino parent name => exact linkAnswers settled sorted awake ok
  | create parent name flags => exact createAnswers settled.1 settled.2 sorted awake ok
  | rmdir parent name => exact rmdirAnswers sorted awake ok
  | rename parent name newparent newname flags => exact renameAnswers settled sorted awake ok
  | unlink parent name => exact unlinkAnswers settled sorted awake ok
  | forget ino n =>
    exact inert (keepsBind (forgetOneNamed ino n) fun _ => replyNamed _)
      (keepsBind (forgetOneTabled minorWakes ino n) fun _ => replyTabled _) ok
  | forgetMulti forgets =>
    exact inert (keepsBind (forgetAllNamed forgets) fun _ => replyNamed _)
      (keepsBind (forgetAllTabled minorWakes forgets) fun _ => replyTabled _) ok
  | readdirplus ino stream =>
    obtain ⟨i,d1,first,rest⟩ := bindSome ok
    obtain ⟨rfl,_⟩ := getInodeSome first
    exact chosenAnswers sorted rfl (readdirChosen settled sorted awake rest)
  | openFile ino flags => exact inert (openNamed ino flags) (openTabled minorWakes ino flags) ok
  | release ino fh =>
    exact inert (releaseNamed (by decide) ino fh) (releaseTabled minorWakes ino fh) ok
  | writeBuf ino fh off data =>
    exact inert (namedData.write ino fh off data) ((tabledNames minorWakes).write ino fh off data) ok
  | getattr ino => exact inert (namedData.getattr ino) ((tabledNames minorWakes).getattr ino) ok
  | setattr ino size fi => exact inert (namedData.setattr ino size fi) ((tabledNames minorWakes).setattr ino size fi) ok
  | setxattr ino name value flag =>
    exact inert (setxattrNamed (Ne.symm settled) ino value flag)
      (setxattrTabled minorWakes ino name value flag) ok
  | removexattr ino name => exact removexattrAnswers settled sorted awake ok

-- Nodes over one source tree: each has its own driver and ID tree, all see one volume.
structure Cluster where
  shared : Volume Call
  nodes : List State

def Cluster.view (c : Cluster) (d : State) : State := {d with fs := {d.fs with vol := c.shared}}

inductive Event where
  | join (opts : Options) (id : Volume Call)
  | on (node : Nat) (s : Step)

def clusterStep (c : Cluster) : Event → Option Cluster
  | .join opts id =>
      let d := boot opts c.shared id
      some ⟨d.fs.vol,c.nodes ++ [d]⟩
  | .on i s => do
      let d ← c.nodes[i]?
      let d' ← step (c.view d) s
      some ⟨d'.fs.vol,c.nodes.set i d'⟩

def SettledOn (c : Cluster) : Event → Prop
  | .join _ _ => True
  | .on i s => match c.nodes[i]? with
      | some d => Scoped (c.view d) s ∧ Settled (c.view d) s
      | none => True

structure Agreed (c : Cluster) : Prop where
  sorted : Sorted c.shared
  awake : ∀ d ∈ c.nodes, Awake d

theorem stepAnswers {d d' : State} {s} (settled : Settled d s) (sorted : Sorted d.fs.vol)
    (awake : Awake d) (ok : step d s = some d') : Answers d d' := by
  cases s with
  | request req e =>
    obtain ⟨⟨_,d1⟩,done,rfl⟩ := Option.map_eq_some_iff.mp ok
    have settled1 : Settled {d with replies := []} (.request req e) := by cases req <;> exact settled
    obtain ⟨sorted1,awake1,each⟩ := @handleAnswers req e {d with replies := []} d1 settled1 sorted
      awake done
    exact ⟨sorted1,awake1,each⟩
  | restart =>
    cases Option.some.inj ok
    have alike : Alike f3Id d.fs (restart d).fs := ⟨rfl,fun _ => rfl,fun _ => rfl,rfl⟩
    exact ⟨sortedAlike alike sorted,fun c mem => by contradiction,fun c mem => by contradiction⟩

theorem bootSorted (opts : Options) (id : Volume Call) {fs : Volume Call} (sorted : Sorted fs) :
    Sorted (boot opts fs id).fs.vol :=
  sortedAlike (m := ⟨fs,[],0,by simp,[]⟩) ⟨rfl,fun _ => rfl,fun _ => rfl,rfl⟩ sorted

theorem eventAgreed {c c' : Cluster} {event} (agreed : Agreed c) (settled : SettledOn c event)
    (ok : clusterStep c event = some c') : Agreed c' := by
  cases event with
  | join opts id =>
    cases Option.some.inj ok
    refine ⟨bootSorted opts id agreed.sorted,fun d mem => ?_⟩
    rcases List.mem_append.mp mem with old | new
    · exact agreed.awake d old
    · cases List.mem_singleton.mp new
      intro x none
      contradiction
  | on i s =>
    obtain ⟨d,node,rest⟩ := Option.bind_eq_some_iff.mp ok
    obtain ⟨d',done,last⟩ := Option.bind_eq_some_iff.mp rest
    cases Option.some.inj last
    simp only [SettledOn,node] at settled
    have awake := agreed.awake d (List.mem_of_getElem? node)
    have answers := stepAnswers settled.2 agreed.sorted awake done
    refine ⟨answers.sorted,fun u mem => ?_⟩
    rcases List.mem_or_eq_of_mem_set mem with old | rfl
    · exact agreed.awake u old
    · exact answers.awake

theorem nodeStepped {c c' : Cluster} {event} {i : Nat} {before after : State}
    (next : clusterStep c event = some c') (was : c.nodes[i]? = some before)
    (now : c'.nodes[i]? = some after) : after = before ∨
      ∃ s, event = .on i s ∧ step (c.view before) s = some after ∧ c'.shared = after.fs.vol := by
  have bound := (List.getElem?_eq_some_iff.mp was).1
  cases event with
  | join opts id =>
    cases Option.some.inj next
    rw [List.getElem?_append_left bound,was] at now
    exact Or.inl (Option.some.inj now).symm
  | on j s =>
    obtain ⟨d,node,rest⟩ := Option.bind_eq_some_iff.mp next
    obtain ⟨d',done,last⟩ := Option.bind_eq_some_iff.mp rest
    cases Option.some.inj last
    by_cases here : j = i
    · subst here
      cases Option.some.inj (was.symm.trans node)
      simp only [List.getElem?_set_self bound] at now
      cases Option.some.inj now
      exact Or.inr ⟨s,rfl,done,rfl⟩
    · rw [List.getElem?_set_ne here,was] at now
      exact Or.inl (Option.some.inj now).symm

theorem choiceFollowsMark {fs : Volume Call} {events} {c c' : Cluster} {event}
    (clean : ∀ ino, created fs ino = false) (meets : Meets clusterStep SettledOn ⟨fs,[]⟩ events)
    (ok : run clusterStep ⟨fs,[]⟩ events = some c) (settled : SettledOn c event)
    (next : clusterStep c event = some c') :
    ∀ (i : Nat) (before after : State), c.nodes[i]? = some before → c'.nodes[i]? = some after →
    ∀ x ∈ after.inodes.cells, x.value.Live →
      (∀ b ∈ before.inodes.cells, b.key = x.key → ¬ b.value.Live) →
      created c'.shared x.key.1 = true → x.value.isId = carries c'.shared x.key.1 := by
  have start : Agreed ⟨fs,[]⟩ := by
    refine ⟨fun p name up o _ _ made => ?_,fun d mem => by contradiction⟩
    rw [clean] at made
    contradiction
  have agreed := Lib.Run.invariant SettledOn Agreed eventAgreed start meets ok
  intro i before after was now x mem live unbuilt made
  rcases nodeStepped next was now with rfl | ⟨s,rfl,done,shared⟩
  · exact absurd live (unbuilt x mem rfl)
  · simp only [SettledOn,was] at settled
    have awake := agreed.awake before (List.mem_of_getElem? was)
    have answers := stepAnswers settled.2 agreed.sorted awake done
    rw [shared] at made ⊢
    rcases answers.each x mem with ⟨b,memB,key⟩ | right
    · exact absurd (awake b memB) (unbuilt b memB key)
    · exact right made

instance (d parent name flags e) : Decidable (createMarks d parent name flags e) := by
  unfold createMarks
  rcases d.inode parent <;> infer_instance

instance (d ino parent name) : Decidable (linkFits d ino parent name) := by
  unfold linkFits
  rcases d.inode ino with _ | inode <;> rcases d.inode parent with _ | dir <;> try infer_instance
  dsimp only
  rcases d.fs.file inode.fd <;> rcases d.fs.dirAt dir.fd with _ | ⟨up,_⟩ <;> infer_instance

instance (d parent name newparent newname) :
    Decidable (renameFits d parent name newparent newname) := by
  unfold renameFits
  rcases d.inode parent with _ | dir <;> rcases d.inode newparent with _ | ndir <;> try infer_instance
  dsimp only
  rcases d.fs.dirAt dir.fd with _ | ⟨_,p⟩ <;> rcases d.fs.dirAt ndir.fd with _ | ⟨up,_⟩ <;> try infer_instance
  dsimp only
  rcases d.fs.vol.tree.find (p ++ [name]) <;> infer_instance

instance (d ino) : Decidable (mayUnmark d ino) := by
  unfold mayUnmark
  rcases d.inode ino with _ | inode
  · infer_instance
  · dsimp only
    rcases d.fs.file inode.fd <;> infer_instance

instance (d s) : Decidable (Settled d s) := by
  unfold Settled
  rcases s with ⟨req,_⟩ | _
  · rcases req <;> infer_instance
  · infer_instance

instance (c event) : Decidable (SettledOn c event) := by
  unfold SettledOn
  rcases event with _ | ⟨i,s⟩
  · infer_instance
  · dsimp only
    rcases c.nodes[i]? <;> infer_instance

def nameId2 : FileName := ⟨[98,46,105,100],by decide⟩

def sourceTree : Volume Call := emptyVolume 1 ⟨[115],okS⟩

def renamedTo (name : FileName) : List Event :=
  [.join ⟨[47,105],[49],true⟩ (emptyVolume 7 ⟨[105],okI⟩),
   .join ⟨[47,105],[50],true⟩ (emptyVolume 8 ⟨[105],okI⟩),
   .on 0 (.request (.create .root nameId forWriting) (calm 10)),
   .on 0 (.request (.rename .root nameId .root name false) (calm 11))]

def lookupOn (name : FileName) : Event := .on 1 (.request (.lookup .root name) (calm 11))

theorem renamedWithin : ∃ c c' after x, run clusterStep ⟨sourceTree,[]⟩ (renamedTo nameId2) = some c ∧
    clusterStep c (lookupOn nameId2) = some c' ∧ c'.nodes[1]? = some after ∧
    x ∈ after.inodes.cells ∧ x.key = (10,1) ∧ x.value.isId = carries c'.shared 10 := by
  have tables : (run clusterStep ⟨sourceTree,[]⟩ (renamedTo nameId2)).bind (fun c =>
      (clusterStep c (lookupOn nameId2)).bind fun c' => c.nodes[1]?.bind fun before =>
      c'.nodes[1]?.map fun after => (before.inodes.cells.map Cell.key,
        after.inodes.cells.map fun x => (x.key,decide x.value.Live,created c'.shared x.key.1))) =
      some ([],[((10,1),true,true)]) := by
    decide +kernel
  obtain ⟨c,ok,tables⟩ := Option.bind_eq_some_iff.mp tables
  obtain ⟨c',next,tables⟩ := Option.bind_eq_some_iff.mp tables
  obtain ⟨before,was,tables⟩ := Option.bind_eq_some_iff.mp tables
  obtain ⟨after,now,tables⟩ := Option.map_eq_some_iff.mp tables
  obtain ⟨empty,one⟩ := Prod.mk.inj tables
  obtain ⟨x,cells,same⟩ := List.map_eq_singleton_iff.mp one
  have mem : x ∈ after.inodes.cells := by simp [cells]
  have key : x.key = (10,1) := congrArg Prod.fst same
  have unbuilt : ∀ b ∈ before.inodes.cells, b.key = x.key → ¬ b.value.Live := by
    simp [List.map_eq_nil_iff.mp empty]
  have settled : ((run clusterStep ⟨sourceTree,[]⟩ (renamedTo nameId2)).all fun c =>
      decide (SettledOn c (lookupOn nameId2))) = true := by
    decide +kernel
  rw [ok] at settled
  have right := choiceFollowsMark (fun _ => rfl) (by decide +kernel) ok (by simpa using settled) next
    1 before after was now x mem (by simpa using congrArg (fun t => t.2.1) same) unbuilt
    (by simpa using congrArg (fun t => t.2.2) same)
  refine ⟨c,c',after,x,ok,next,now,mem,key,?_⟩
  rwa [key] at right

theorem renamedAway :
    (run clusterStep ⟨sourceTree,[]⟩ (renamedTo nameB ++ [lookupOn nameB])).map (fun c =>
      (created c.shared 10,carries c.shared 10)) = some (true,true) ∧
    (run clusterStep ⟨sourceTree,[]⟩ (renamedTo nameB ++ [lookupOn nameB])).map (fun c =>
      c.nodes.map fun d => d.inodes.cells.map fun x => (x.key,x.value.isId)) =
      some [[((10,1),true)],[((10,1),false)]] := by
  decide +kernel

end F3.Driver.Choice
