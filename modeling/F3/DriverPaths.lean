import F3.DriverFrames

/-! user.f3.filepath: the path that the shared copy of a file records, and where the ID
copy of the file is. The path is recorded once, when the file is created. -/
namespace F3.Driver.Paths
open Lib (Arena Bytes Tree Prog Act)
open Lib.Prog (keepsBind bindSome)
open Lib.Posix
open Lib.Run (run Meets)

def recordOf (v : Volume Call) (ino : Ino) : Option Bytes := (v.nodes ino).xattr f3Filepath

-- The ID copy of a file is the one it was last created together with.
def copyOf (pairs : List (Ino × Ino)) (ino : Ino) : Option Ino :=
  (pairs.find? (fun x => x.1 = ino)).map Prod.snd

def Record (v : Volume Call) (q : List FileName) (ino : Ino) (value : Bytes) : Prop :=
  v.tree.find q = some ⟨ino,.reg⟩ ∧ recordOf v ino = some value

def Names (d : State) (ino : Ino) (value : Bytes) : Prop :=
  ∃ p i, p.map Subtype.val = components value ∧ d.id.vol.tree.find p = some ⟨i,.reg⟩ ∧
    copyOf d.pairs ino = some i

structure Recorded (d : State) : Prop where
  rooted : d.conf.source = absolute d.fs.vol.mount
  text : ∀ {q ino value}, Record d.fs.vol q ino value → value.length ≤ 4096 ∧ 0 ∉ value
  named : ∀ {q ino value}, Record d.fs.vol q ino value → Names d ino value

theorem recordedFrom {d d' : State} (before : Recorded d) (mount : d'.fs.vol.mount = d.fs.vol.mount)
    (conf : d'.conf = d.conf) (pairs : d'.pairs = d.pairs)
    (each : ∀ {q ino value}, Record d'.fs.vol q ino value → (∃ p, Record d.fs.vol p ino value) ∧
      ∀ {p i}, p.map Subtype.val = components value → d.id.vol.tree.find p = some ⟨i,.reg⟩ →
        d'.id.vol.tree.find p = some ⟨i,.reg⟩) : Recorded d' := by
  refine ⟨by rw [conf,mount,before.rooted],fun here => ?_,fun here => ?_⟩
  · obtain ⟨⟨_,there⟩,_⟩ := each here
    exact before.text there
  · obtain ⟨⟨_,there⟩,stays⟩ := each here
    obtain ⟨p,i,path,found,copy⟩ := before.named there
    exact ⟨p,i,path,stays path found,by rw [pairs,copy]⟩

structure Grown (d d' : State) : Prop where
  fs : Alike f3Filepath d.fs d'.fs
  id : ∀ {p entry}, d.id.vol.tree.find p = some entry → d'.id.vol.tree.find p = some entry
  conf : d'.conf = d.conf
  pairs : d'.pairs = d.pairs

instance : IsPreorder State Grown where
  refl d := ⟨refl_of (Alike f3Filepath) d.fs,fun found => found,rfl,rfl⟩
  trans _ _ _ one two := ⟨trans_of (Alike f3Filepath) one.fs two.fs,
    fun found => two.id (one.id found),two.conf.trans one.conf,two.pairs.trans one.pairs⟩

theorem recordAlike {m m' : Mount Call} {q ino value} (alike : Alike f3Filepath m m')
    (here : Record m'.vol q ino value) : Record m.vol q ino value :=
  ⟨by rw [← alike.tree,here.1],by rw [recordOf,← alike.xattr ino]; exact here.2⟩

theorem recordedGrown {d d' : State} (grown : Grown d d') (before : Recorded d) : Recorded d' :=
  recordedFrom before grown.fs.mount grown.conf grown.pairs fun {q _ _} here =>
    ⟨⟨q,recordAlike grown.fs here⟩,fun _ found => grown.id found⟩

theorem looksGrown {α : Type} {p : Handler α} (keeps : Prog.Keeps Looks p) : Prog.Keeps Grown p := by
  intro e d a d' ok
  have looks := keeps e d a d' ok
  exact ⟨looks.fs.alike f3Filepath,fun found => looks.id.kept found,looks.conf,looks.pairs⟩

theorem namedGrown {α : Type} {p : Handler α} (keeps : Prog.Keeps (Named f3Filepath) p) :
    Prog.Keeps Grown p := by
  intro e d a d' ok
  have named := keeps e d a d' ok
  refine ⟨named.fs,fun found => ?_,named.conf,named.pairs⟩
  rw [named.id.tree]
  exact found

theorem progRecorded {α : Type} {p : Handler α} {e} {d : State} {a d'} (keeps : Prog.Keeps Grown p)
    (ok : p e d = some (a,d')) (before : Recorded d) : Recorded d' :=
  recordedGrown (keeps e d a d' ok) before

theorem lookupGrown (parent : Ref) (name : FileName) : Prog.Keeps Grown (doLookup parent name) :=
  looksGrown (doLookupLooks parent name)

theorem replyGrown (r : Reply) : Prog.Keeps Grown (reply r) := namedGrown (replyNamed r)

theorem sfsLookupGrown (parent : Ref) (name : FileName) : Prog.Keeps Grown (sfsLookup parent name) := by
  refine keepsBind (lookupGrown parent name) fun r => ?_
  split <;> exact replyGrown _

theorem readdirGrown (ino : Ref) (stream : List DirEntry) (sofar : List (FileName × EntryParam)) :
    Prog.Keeps Grown (readdirLoop ino stream sofar) := by
  induction stream generalizing sofar with
  | nil => exact replyGrown _
  | cons x rest ih =>
    refine keepsBind (Prog.keepsWithin (lookupGrown ino x.name)) fun r => ?_
    cases r with
    | error err => exact replyGrown _
    | ok entry =>
      exact Prog.keepsIte (ih _)
        (keepsBind (namedGrown (forgetEntryNamed entry)) fun _ => replyGrown _)

theorem recordMade {m : Mount Call} {v : Volume Call} {c ino kind content p name q i value}
    (made : m.vol.make c ino kind content p name = .ok v) (here : Record v q i value) :
    Record m.vol q i value := by
  obtain ⟨free,ok,tree,nodes,_⟩ := makeOk made
  obtain ⟨found,record⟩ := here
  -- The new file has no attributes, so the record is another file's.
  have other : i ≠ ino := by
    rintro rfl
    simp [recordOf,nodes,Volume.setNode] at record
  rw [tree,Tree.findAdd] at found
  split at found
  · exact absurd (congrArg Entry.ino (Option.some.inj found)).symm other
  · exact ⟨found,by simpa [recordOf,nodes,Volume.setNode,other] using record⟩

theorem recordCreated {c : Call} {dir : Slot} {name flags e} {m : Mount Call} {fd m' q ino value}
    (ok : openCreate c dir name flags e m = (.ok fd,m')) (here : Record m'.vol q ino value) :
    Record m.vol q ino value := by
  obtain ⟨_,_,_,_,_,_,_,_,_,outcome⟩ := openCreateOk ok
  rcases outcome with ⟨_,alike⟩ | ⟨v,made,quiet⟩
  · exact recordAlike (alike f3Filepath) here
  · exact recordMade made (@recordAlike {m with vol := v} _ _ _ _ (quiet.alike f3Filepath) here)

theorem sysIdGrown {α : Type} {p : Sys Call α} (grows : Act.Keeps Grows p) :
    Prog.Keeps Grown (sys .id p) := looksGrown (sysIdLooks grows)

-- A directory is marked through a descriptor that no attribute can be set through, so
-- the path is not recorded.
theorem markDirGrown (side : Side) (dir : Inode) (name : FileName) :
    Prog.Keeps Grown (markDir side dir name) := by
  intro e d _ d' ok
  obtain ⟨m,rfl,outcome⟩ := markDirSome ok
  have alike : Alike f3Filepath (d.mount side) m := by
    rcases outcome with quiet | ⟨up,p,entry,m1,_,_,marks,quiet⟩
    · exact quiet.alike f3Filepath
    · have opened := (installQuiet (d.mount side) ⟨entry,some (up,name),.path⟩).alike f3Filepath
      refine trans_of (Alike f3Filepath) opened (trans_of (Alike f3Filepath) ?_ (quiet.alike f3Filepath))
      rcases marks.pathAlike with same | ⟨f,_,known,access,_⟩
      · exact same
      · rw [fileInstall] at known
        cases Option.some.inj known
        exact absurd rfl access
  cases side with
  | fs => exact ⟨alike,fun found => found,rfl,rfl⟩
  | id =>
    refine ⟨refl_of (Alike f3Filepath) d.fs,fun {p entry} found => ?_,rfl,rfl⟩
    rw [← show m.vol.tree = d.id.vol.tree from alike.tree] at found
    exact found

theorem mknodIdGrown (parent : Ref) (dir : Inode) (name : FileName) (kind : Kind) (link : Bytes) :
    Prog.Keeps Grown (mknodId parent dir name kind link) :=
  mknodIdKeeps (sysIdGrown (makeAtGrows _ _ _ _ _)) (looksGrown (f3IsNewIdLooks _ _ _))
    (fun side => markDirGrown side dir name) kind link

theorem repliesGrown (d : State) (replies : List Reply) : Grown d {d with replies := replies} :=
  ⟨refl_of (Alike f3Filepath) d.fs,fun found => found,rfl,rfl⟩

theorem mknodRecorded {parent name kind link e} {d d' : State} (before : Recorded d)
    (ok : mknodSymlink parent name kind link e d = some ((),d')) : Recorded d' := by
  obtain ⟨dir,_,ran⟩ := mknodSome ok
  have made : ∀ {m}, makeAt (.mknod .fs) dir.fd name kind link e d.fs = (.ok (),m) →
      Recorded {d with fs := m} := by
    intro m call
    obtain ⟨_,_,v,_,made,rfl⟩ := makeAtOk call
    obtain ⟨_,_,_,_,_,mount⟩ := makeOk made
    exact recordedFrom before mount rfl rfl fun {q _ _} here =>
      ⟨⟨q,recordMade made here⟩,fun _ found => found⟩
  cases ran with
  | noFs same => exact same ▸ recordedGrown (repliesGrown _ _) before
  | noId call failed same =>
    exact same ▸ recordedGrown (repliesGrown _ _)
      (progRecorded (mknodIdGrown _ _ _ _ _) failed (made call))
  | looked call copied lookup same =>
    exact same ▸ recordedGrown (repliesGrown _ _) (progRecorded (lookupGrown _ _) lookup
      (progRecorded (mknodIdGrown _ _ _ _ _) copied (made call)))

theorem linkRecorded {ino parent name e} {d d' : State} (before : Recorded d)
    (ok : sfsLink ino parent name e d = some ((),d')) : Recorded d' := by
  obtain ⟨inode,dir,_,_,conf,pairs,fs,id⟩ := linkSome ok
  have linked : d'.fs.vol.mount = d.fs.vol.mount ∧ ∀ {q ino value},
      Record d'.fs.vol q ino value → ∃ p, Record d.fs.vol p ino value := by
    rw [fs]
    rcases linkAtCases (.link .fs) inode.fd dir.fd name e d.fs with ⟨err,same⟩ | ⟨f,up,p,v,_,_,linked,same⟩
    · rw [same]
      exact ⟨rfl,fun {q _ _} here => ⟨q,here⟩⟩
    · rw [same]
      obtain ⟨_,⟨q0,there⟩,nodes,mount,_,find⟩ := linkOk linked
      refine ⟨mount,fun {q ino value} here => ?_⟩
      obtain ⟨found,record⟩ := here
      have kept : recordOf d.fs.vol ino = some value := by simpa [recordOf,nodes] using record
      rw [find] at found
      split at found
      · exact ⟨q0,there.trans found,kept⟩
      · exact ⟨q,found,kept⟩
  have stays : ∀ {p entry}, d.id.vol.tree.find p = some entry → d'.id.vol.tree.find p = some entry := by
    intro p entry found
    rcases id with same | ⟨_,same⟩
    · rw [same,found]
    · rw [same]
      rcases linkAtCases (.link .id) inode.idFd dir.idFd name e d.id with ⟨err,call⟩ | ⟨f,up,q,v,_,_,linked,call⟩
      · rw [call,found]
      · rw [call]
        obtain ⟨_,_,_,_,absent,find⟩ := linkOk linked
        have apart : p ≠ q ++ [name] := by
          rintro rfl
          rw [absent] at found
          contradiction
        simp [find,apart,found]
  exact recordedFrom before linked.1 conf pairs fun here => ⟨linked.2 here,fun _ found => stays found⟩

theorem copyOther {pairs : List (Ino × Ino)} {ino i j : Ino} (other : ino ≠ i) :
    copyOf ((i,j) :: pairs) ino = copyOf pairs ino := by
  have apart : ¬ i = ino := fun same => other same.symm
  simp [copyOf,apart]

theorem copyHere (pairs : List (Ino × Ino)) (i j : Ino) : copyOf ((i,j) :: pairs) i = some j := by
  simp [copyOf]

theorem recordMarked {address fd rootDirLen f up name p q ino value} {m m' : Mount Call}
    (marks : MarkedTo address fd rootDirLen m m') (file : m.file fd = some f)
    (dentry : f.dentry = some (up,name)) (place : m.vol.tree.pathOf up = some p)
    (here : Record m'.vol q ino value) : Record m.vol q ino value ∨ ino = f.entry.ino ∧
      (absolute (m.vol.mount ++ (p ++ [name]))).length < 4096 ∧
      value = (absolute (m.vol.mount ++ (p ++ [name]))).drop rootDirLen := by
  rcases marks.pathAlike with alike | ⟨g,path,there,_,placed,short,alike⟩
  · exact Or.inl (recordAlike alike here)
  · cases Option.some.inj (file.symm.trans there)
    have named : path = p ++ [name] := by simpa [Mount.filePath,dentry,place] using placed.symm
    subst named
    obtain ⟨found,record⟩ := recordAlike alike here
    rw [recordOf,setAttrXattr] at record
    split at record
    · rename_i same
      exact Or.inr ⟨same.1,short,(Option.some.inj record).symm⟩
    · exact Or.inl ⟨found,record⟩

theorem namesPaired {d d' : State} {i j q ino value} (before : Recorded d)
    (idTree : d'.id.vol.tree = d.id.vol.tree) (pairs : d'.pairs = (i,j) :: d.pairs)
    (paired : ∀ value, recordOf d.fs.vol i = some value → copyOf d.pairs i = some j)
    (here : Record d.fs.vol q ino value) : Names d' ino value := by
  obtain ⟨p,k,path,found,known⟩ := before.named here
  refine ⟨p,k,path,by rw [idTree,found],?_⟩
  rw [pairs]
  by_cases same : ino = i
  · subst same
    rw [copyHere,← paired value here.2,known]
  · rw [copyOther same,known]

theorem markedRecorded {fd idFd e} {d d' : State} {f g up p name} (before : Recorded d)
    (both : MarkedBoth fd idFd e d d') (file : d.fs.file fd = some f) (copy : d.id.file idFd = some g)
    (dentry : f.dentry = some (up,name)) (place : d.fs.vol.tree.pathOf up = some p)
    (here : d.id.vol.tree.find (p ++ [name]) = some ⟨g.entry.ino,.reg⟩)
    (paired : ∀ value, recordOf d.fs.vol f.entry.ino = some value →
      copyOf d.pairs f.entry.ino = some g.entry.ino) : Recorded d' := by
  have marks := markedTo .fs d.conf.address fd d.conf.source.length e d.fs
  have closed := (closeQuiet fd e
    (f3MarkAsId .fs d.conf.address fd d.conf.source.length e d.fs).2).alike f3Filepath
  rw [← both.fs] at closed
  have copy' : d'.id.file idFd = some g := by
    rw [both.id]
    exact heldFile (f3MarkAsIdHeld .id _ _ _ e d.id) copy
  have pairs : d'.pairs = (f.entry.ino,g.entry.ino) :: d.pairs := by
    rw [both.pairs,heldFile (f3MarkAsIdHeld .fs _ _ _ e d.fs) file,copy']
    rfl
  have idTree : d'.id.vol.tree = d.id.vol.tree := by
    rw [both.id]
    exact (markedTo .id _ _ _ e d.id).place.1
  refine ⟨by rw [both.conf,closed.mount,marks.place.2,before.rooted],fun new => ?_,fun new => ?_⟩
  · rcases recordMarked marks file dentry place (recordAlike closed new) with old | ⟨_,short,rfl⟩
    · exact before.text old
    · refine ⟨?_,fun zero => absolutePlain _ (List.mem_of_mem_drop zero)⟩
      rw [List.length_drop]
      exact (Nat.sub_le _ _).trans short.le
  · rcases recordMarked marks file dentry place (recordAlike closed new) with old | ⟨rfl,_,rfl⟩
    · exact namesPaired before idTree pairs paired old
    · refine ⟨p ++ [name],g.entry.ino,?_,by rw [idTree,here],by rw [pairs,copyHere]⟩
      rw [before.rooted,componentsRelative _ _ (by simp)]

theorem newIdHeld {caller parent name e} {d : State} {b d'}
    (ok : f3IsNewId caller parent name e d = some (b,d')) : Held d.fs.next d.fs d'.fs := by
  obtain ⟨dir,_,_,rfl⟩ := f3IsNewIdSome ok
  exact f3IsIdHeld caller dir.fd e d.fs

def createFits (d : State) (parent : Ref) (name : FileName) : Bool := match d.inode parent with
  | none => true
  | some dir => match d.fs.dirAt dir.fd,d.id.dirAt dir.idFd with
      | .ok (_,p),.ok (_,q) => !isNewId d.fs dir name || p = q &&
          match d.fs.vol.tree.find (p ++ [name]) with
          | none => true
          | some entry => recordOf d.fs.vol entry.ino = none ||
              (d.id.vol.tree.find (q ++ [name])).map Entry.ino = copyOf d.pairs entry.ino
      | _,_ => true

theorem createdPaired {d : State} {parent name flags e dir fd m idFd n up p f g} (before : Recorded d)
    (known : d.inode parent = some dir)
    (opened : openCreate (.create .fs) dir.fd name flags e d.fs = (.ok fd,m))
    (openedId : openCreate (.create .id) dir.idFd name flags e d.id = (.ok idFd,n))
    (at_ : d.fs.dirAt dir.fd = .ok (up,p)) (file : m.file fd = some f) (copy : n.file idFd = some g)
    (isNew : isNewId d.fs dir name = true) (fits : createFits d parent name = true) :
    n.vol.tree.find (p ++ [name]) = some ⟨g.entry.ino,.reg⟩ ∧
      ∀ value, recordOf m.vol f.entry.ino = some value →
        copyOf d.pairs f.entry.ino = some g.entry.ino := by
  obtain ⟨_,_,_,atFs,_,fileFs,_,kindFs,thereFs,outcome⟩ := openCreateOk opened
  obtain ⟨upId,q,_,atId,_,fileId,_,kindId,thereId,outcomeId⟩ := openCreateOk openedId
  cases Except.ok.inj (at_.symm.trans atFs)
  cases Option.some.inj (file.symm.trans fileFs)
  cases Option.some.inj (copy.symm.trans fileId)
  simp only [createFits,known,at_,atId,isNew,Bool.not_true,Bool.false_or,Bool.and_eq_true,
    decide_eq_true_eq] at fits
  obtain ⟨rfl,match_⟩ := fits
  have regular : g.entry = ⟨g.entry.ino,.reg⟩ := by rw [← kindId]
  refine ⟨by rw [thereId,← regular],fun value record => ?_⟩
  have old : Record d.fs.vol (p ++ [name]) f.entry.ino value := by
    refine recordCreated opened ⟨?_,record⟩
    rw [thereFs,← kindFs]
  obtain ⟨_,i,_,_,known⟩ := before.named old
  simp only [old.1,old.2,Bool.or_eq_true,decide_eq_true_eq] at match_
  have here := match_.resolve_left (by simp)
  rw [known] at here ⊢
  obtain ⟨entry,found,rfl⟩ := Option.map_eq_some_iff.mp here
  have grows := openCreateGrows (.create .id) dir.idFd name flags e d.id
  rw [openedId] at grows
  cases Option.some.inj (thereId.symm.trans (grows.kept found))
  rfl

theorem chooseRecorded {parent name flags e} {d : State} {dir fd m idFd n fh d'} (before : Recorded d)
    (known : d.inode parent = some dir)
    (opened : openCreate (.create .fs) dir.fd name flags e d.fs = (.ok fd,m))
    (openedId : openCreate (.create .id) dir.idFd name flags e d.id = (.ok idFd,n))
    (fits : createFits d parent name = true)
    (ok : chooseCopy parent name fd idFd e {d with fs := m, id := n} = some (fh,d')) :
    Recorded d' := by
  obtain ⟨up,p,f,at_,still,file,dentry,_,_,_⟩ := openCreateOk opened
  obtain ⟨_,_,g,_,_,copy,_⟩ := openCreateOk openedId
  have grows := openCreateGrows (.create .fs) dir.fd name flags e d.fs
  have growsId := openCreateGrows (.create .id) dir.idFd name flags e d.id
  rw [opened] at grows
  rw [openedId] at growsId
  let u : State := {d with fs := m, id := n}
  have middle : Recorded u := recordedFrom before grows.mount rfl rfl fun {q _ _} here =>
    ⟨⟨q,recordCreated opened here⟩,fun _ found => growsId.kept found⟩
  obtain ⟨b,d1,asked,outcome⟩ := chooseSome ok
  have after := progRecorded (looksGrown (f3IsNewIdLooks _ _ _)) asked middle
  have held := newIdHeld asked
  rcases outcome with ⟨_,rfl⟩ | ⟨rfl,both⟩
  · exact after
  · -- What f3_is_new_id says of the new state it also says of the old one.
    have isNew : isNewId d.fs dir name = true := by
      refine Bool.of_not_eq_false fun no => ?_
      have yes := @newIdSound _ _ _ _ u dir _ (by cases parent <;> exact known) asked
      rw [isNewIdBeside grows at_ no] at yes
      contradiction
    obtain ⟨here,paired⟩ :=
      createdPaired before known opened openedId at_ file copy isNew fits
    obtain ⟨m1,rfl,quiet⟩ := newIdSome asked
    obtain ⟨_,_,_,isDir,above⟩ := dirAtFile still
    have place : m1.vol.tree.pathOf up = some p := by
      rw [quiet.tree]
      exact Tree.pathOfDir above isDir
    refine markedRecorded after both (heldFile held file) copy dentry place here fun value record => ?_
    exact paired value (by rw [← record,recordOf,recordOf,quiet.nodes])

theorem createRecorded {parent name flags e} {d d' : State} (before : Recorded d)
    (fits : createFits d parent name = true) (ok : sfsCreate parent name flags e d = some ((),d')) :
    Recorded d' := by
  obtain ⟨dir,known,ran⟩ := createSome ok
  cases ran with
  | noFs same => exact same ▸ recordedGrown (repliesGrown _ _) before
  | @noId fd m _ opened failed same =>
    have grows := openCreateGrows (.create .fs) dir.fd name flags e d.fs
    rw [opened] at grows
    rw [same]
    exact recordedFrom before grows.mount rfl rfl fun {q _ _} here =>
      ⟨⟨q,recordCreated opened here⟩,fun _ found => found⟩
  | @chosen fd m idFd n fh d1 r d2 opened openedId chosen lookup finish =>
    have after := progRecorded (lookupGrown parent name) lookup
      (chooseRecorded before known opened openedId fits chosen)
    cases r with
    | error err => exact progRecorded (replyGrown _) finish after
    | ok entry => exact progRecorded (namedGrown (replyCreateNamed entry fh)) finish after

def recorded (v : Volume Call) : List (List FileName × List Bytes) :=
  v.tree.entries.filterMap fun x => if x.2.kind = .reg then
    (recordOf v x.2.ino).map fun value => (x.1,components value) else none

theorem Record.mem {v : Volume Call} {q ino value} (here : Record v q ino value) :
    (q,components value) ∈ recorded v := by
  refine List.mem_filterMap.mpr ⟨(q,⟨ino,.reg⟩),Tree.foundMem.mp here.1,?_⟩
  simp [here.2]

def removes (c : Call) (m : Mount Call) (dir : Slot) (name : FileName) (rmdir : Bool) (e : Env Call)
    (q : List FileName) : Bool := match m.dirAt dir,(unlinkAt c dir name rmdir e m).1 with
  | .ok (_,p),.ok _ => q = p ++ [name]
  | _,_ => false

theorem recordUnlinked {c : Call} {dir : Slot} {name rmdir e} {m : Mount Call} {q ino value}
    (here : Record (unlinkAt c dir name rmdir e m).2.vol q ino value) :
    Record m.vol q ino value ∧ removes c m dir name rmdir e q = false := by
  rcases unlinkAtCases c dir name rmdir e m with ⟨err,same⟩ | ⟨up,p,v,at_,removed,same⟩
  · rw [same] at here
    refine ⟨here,?_⟩
    unfold removes
    rw [same]
    split <;> first | rfl | contradiction
  · rw [same] at here
    obtain ⟨nodes,_,_,find⟩ := removeOk removed
    obtain ⟨found,record⟩ := here
    rw [find] at found
    split at found <;> try contradiction
    rename_i apart
    refine ⟨⟨found,by simpa [recordOf,nodes] using record⟩,?_⟩
    simp [removes,at_,same,apart]

theorem unlinkMount (c : Call) (dir : Slot) (name : FileName) (rmdir : Bool) (e : Env Call)
    (m : Mount Call) : (unlinkAt c dir name rmdir e m).2.vol.mount = m.vol.mount := by
  rcases unlinkAtCases c dir name rmdir e m with ⟨err,same⟩ | ⟨up,p,v,_,removed,same⟩
  · rw [same]
  · rw [same]
    exact (removeOk removed).2.1

theorem copyStays {c : Call} {dir : Slot} {name rmdir e} {m : Mount Call} {q i}
    (found : m.vol.tree.find q = some ⟨i,.reg⟩)
    (apart : rmdir = false → ∀ {up p}, m.dirAt dir = .ok (up,p) → q ≠ p ++ [name]) :
    (unlinkAt c dir name rmdir e m).2.vol.tree.find q = some ⟨i,.reg⟩ := by
  rcases unlinkAtCases c dir name rmdir e m with ⟨err,same⟩ | ⟨up,p,v,at_,removed,same⟩
  · rw [same,found]
  · rw [same]
    obtain ⟨_,_,⟨entry,there,kind⟩,find⟩ := removeOk removed
    have other : q ≠ p ++ [name] := by
      cases rmdir with
      | false => exact apart rfl at_
      | true =>
        rintro rfl
        cases Option.some.inj (found.symm.trans there)
        contradiction
    simp [find,other,found]

theorem rmdirRecorded {parent name e} {d d' : State} (before : Recorded d)
    (ok : sfsRmdir parent name e d = some ((),d')) : Recorded d' := by
  obtain ⟨dir,_,both⟩ := rmdirSome ok
  refine recordedFrom before (by rw [both.fs,unlinkMount]) both.conf both.pairs fun {q _ _} here => ?_
  rw [both.fs] at here
  refine ⟨⟨q,(recordUnlinked here).1⟩,fun _ found => ?_⟩
  rw [both.id]
  exact copyStays found (by simp)

theorem unlinkBothRecorded {dir : Inode} {name e} {d d' : State} (before : Recorded d)
    (fits : ∀ {q ino value up p}, Record d.fs.vol q ino value →
      removes (.unlink .fs) d.fs dir.fd name false e q = false →
      d.id.dirAt dir.idFd = .ok (up,p) → components value ≠ (p ++ [name]).map Subtype.val)
    (ok : unlinkBoth dir name e d = some ((),d')) : Recorded d' := by
  have both := unlinkBothSome ok
  refine recordedFrom before (by rw [both.fs,unlinkMount]) both.conf both.pairs fun {q _ _} here => ?_
  rw [both.fs] at here
  obtain ⟨old,remains⟩ := recordUnlinked here
  refine ⟨⟨q,old⟩,fun path found => ?_⟩
  rw [both.id]
  refine copyStays found fun _ {up p} at_ => ?_
  rintro rfl
  exact fits old remains at_ path.symm

theorem removesSame {c : Call} {dir : Slot} {name rmdir e q} {m m' : Mount Call}
    (at_ : m'.dirAt dir = m.dirAt dir) (tree : m'.vol.tree = m.vol.tree)
    (yes : removes c m dir name rmdir e q = true) : removes c m' dir name rmdir e q = true := by
  unfold removes at yes ⊢
  split at yes <;> try contradiction
  rename_i up p _ here gone
  obtain ⟨w,again⟩ := unlinkAtSame at_ tree (Prod.ext gone rfl)
  simp only [at_,here,again]
  exact yes

def ownFd (d : State) (dir : Inode) (name : FileName) : Bool := match d.fs.dirAt dir.fd with
  | .error _ => true
  | .ok (_,p) => match d.fs.vol.tree.find (p ++ [name]) with
      | none => true
      | some o => match d.inodes.atKey (o.ino,d.fs.vol.dev) with
          | none => true
          | some c => c.value.fd ≠ dir.fd

theorem lookedFd {parent name e} {d : State} {entry d' dir up p}
    (done : Looked parent name e d (.ok entry) d') (known : d.inode parent = some dir)
    (at_ : d.fs.dirAt dir.fd = .ok (up,p)) (own : ownFd d dir name = true) :
    ∃ addr i, entry.ino = some addr ∧ d'.inode (.node addr) = some i ∧ dir.fd ≠ i.fd := by
  cases done with
  | missed _ _ failed _ =>
    obtain ⟨err,failed⟩ := failed
    contradiction
  | known same found here live plain named table =>
    cases Option.some.inj (known.symm.trans same)
    obtain ⟨_,_,o,again,there,_,rfl,_⟩ := resolved found
    cases Except.ok.inj (at_.symm.trans again)
    obtain ⟨mem,_⟩ := Arena.atKeyMem here
    refine ⟨_,_,named entry rfl,inodeNode (table ▸ Arena.atAddrModify (Arena.memAtAddr mem)),?_⟩
    have other := own
    simp only [ownFd,at_,there] at other
    rw [show d.inodes.atKey (o.ino,d.fs.vol.dev) = _ from here] at other
    exact fun shared => (by simpa using other : _ ≠ _) shared.symm
  | built same found key old entered dead plain named table =>
    cases Option.some.inj (known.symm.trans same)
    obtain ⟨_,_,_,_,_,newest,_⟩ := resolved found
    refine ⟨_,_,named entry rfl,inodeNode (table ▸ Arena.atAddrModify entered),?_⟩
    obtain ⟨f,file,_⟩ := dirAtFile at_
    obtain ⟨n,slot⟩ := fdOfFile file
    rw [slot] at file ⊢
    rw [newest]
    intro shared
    exact Nat.ne_of_lt (fileOld file) (Slot.fd.inj shared)

theorem releasedFile {slot : Slot} {entry : EntryParam} {addr i e} {d d' : State}
    (place : entry.ino = some addr) (known : d.inode (.node addr) = some i) (apart : slot ≠ i.fd)
    (ok : releaseUnlinked entry e d = some ((),d')) : d'.fs.file slot = d.fs.file slot := by
  simp only [releaseUnlinked,place,Prog.onlyIf] at ok
  split at ok
  · obtain ⟨j,d1,first,ok⟩ := bindSome ok
    obtain ⟨rfl,same,_⟩ := getInodeSome first
    cases Option.some.inj (known.symm.trans same)
    split at ok
    · obtain ⟨_,_,one,ok⟩ := bindSome ok
      obtain ⟨_,_,two,ok⟩ := bindSome ok
      obtain ⟨_,rfl⟩ := sysSome one
      obtain ⟨_,rfl⟩ := sysSome two
      cases Option.some.inj ok
      exact closeFile apart e d1.fs
    · rw [(Prog.pureSome ok).2]
  · rw [(Prog.pureSome ok).2]

theorem releaseUnlinkedLooks (e : EntryParam) : Prog.Keeps Looks (releaseUnlinked e) := by
  refine releaseUnlinkedKeeps (fun side slot => ?_) (fun addr => (looksLookup .closed).sets addr _) e
  cases side with
  | fs => exact sysFsLooks (closeQuiet slot)
  | id => exact sysIdLooks (keepsGrows (closeQuiet slot))

theorem unlinkDirStays {parent name e} {d d1 d2 : State} {dir entry up p}
    (known : d.inode parent = some dir) (lookup : doLookup parent name e d = some (.ok entry,d1))
    (released : releaseUnlinked entry e d1 = some ((),d2)) (at_ : d.fs.dirAt dir.fd = .ok (up,p))
    (own : ownFd d dir name = true) : d2.fs.dirAt dir.fd = d.fs.dirAt dir.fd := by
  obtain ⟨addr,i,place,here,apart⟩ := lookedFd (looked lookup) known at_ own
  obtain ⟨f,file,_⟩ := dirAtFile at_
  have looks := trans_of Looks (doLookupLooks parent name e d _ d1 lookup)
    (releaseUnlinkedLooks entry e d1 _ d2 released)
  refine dirAtSame ?_ looks.fs.tree
  rw [releasedFile place here apart released,heldFile (lookupHeld lookup) file,file]

def unlinkFits (d : State) (parent : Ref) (name : FileName) (e : Env Call) : Bool :=
  match d.inode parent with
  | none => true
  | some dir => match d.id.dirAt dir.idFd with
      | .error _ => d.conf.cached
      | .ok (_,p) => (recorded d.fs.vol).all fun x => x.2 ≠ (p ++ [name]).map Subtype.val ||
          removes (.unlink .fs) d.fs dir.fd name false e x.1 && (d.conf.cached || ownFd d dir name)

theorem unlinkFitsRecord {d : State} {parent name e dir q ino value up p}
    (fits : unlinkFits d parent name e = true) (known : d.inode parent = some dir)
    (here : Record d.fs.vol q ino value) (at_ : d.id.dirAt dir.idFd = .ok (up,p))
    (same : components value = (p ++ [name]).map Subtype.val) :
    removes (.unlink .fs) d.fs dir.fd name false e q = true ∧
      (d.conf.cached = true ∨ ownFd d dir name = true) := by
  simp only [unlinkFits,known,at_,List.all_eq_true] at fits
  have one := fits _ here.mem
  simpa only [same,ne_eq,not_true_eq_false,decide_false,Bool.false_or,Bool.and_eq_true,
    Bool.or_eq_true] using one

theorem unlinkRecorded {parent name e} {d d' : State} (before : Recorded d)
    (fits : unlinkFits d parent name e = true) (ok : sfsUnlink parent name e d = some ((),d')) :
    Recorded d' := by
  obtain ⟨dir,d0,first,rest⟩ := bindSome ok
  obtain ⟨rfl,known,_⟩ := getInodeSome first
  obtain ⟨_,_,got,rest⟩ := bindSome rest
  cases Option.some.inj got
  split at rest
  · refine unlinkBothRecorded before (fun here remains at_ same => ?_) rest
    have gone := (unlinkFitsRecord fits known here at_ same).1
    rw [remains] at gone
    contradiction
  · rename_i uncached
    obtain ⟨r,d1,lookup,rest⟩ := bindSome rest
    have after := progRecorded (lookupGrown parent name) lookup before
    cases r with
    | error err => exact progRecorded (replyGrown _) rest after
    | ok entry =>
      obtain ⟨_,d2,released,rest⟩ := bindSome rest
      have all := trans_of Looks (doLookupLooks parent name e d0 _ d1 lookup)
        (releaseUnlinkedLooks entry e d1 _ d2 released)
      have after2 := progRecorded (looksGrown (releaseUnlinkedLooks entry)) released after
      refine unlinkBothRecorded after2 (fun {q ino value up p} here remains at_ same => ?_) rest
      have old := recordAlike (all.fs.alike f3Filepath) here
      cases was : d0.id.dirAt dir.idFd with
      | error err => simp [unlinkFits,known,was,uncached] at fits
      | ok place =>
        cases dirAtGrows all.id was at_
        obtain ⟨gone,own⟩ := unlinkFitsRecord fits known old was same
        cases shared : d0.fs.dirAt dir.fd with
        | error err => simp [removes,shared] at gone
        | ok there =>
          have stays := unlinkDirStays known lookup released shared (own.resolve_left uncached)
          rw [removesSame stays all.fs.tree gone] at remains
          contradiction

def replaces (m : Mount Call) (dir : Slot) (name : FileName) (newdir : Slot) (newname : FileName)
    (e : Env Call) (q : List FileName) : Bool :=
  match m.dirAt dir,m.dirAt newdir,(renameAt (.rename .fs) dir name newdir newname e m).1 with
  | .ok (_,p),.ok (_,p'),.ok _ => q = p' ++ [newname] &&
      m.vol.tree.find (p ++ [name]) ≠ m.vol.tree.find q
  | _,_,_ => false

theorem recordRenamed {dir : Slot} {name newdir newname e} {m : Mount Call} {q ino value}
    (here : Record (renameAt (.rename .fs) dir name newdir newname e m).2.vol q ino value) :
    ∃ p, Record m.vol p ino value ∧ replaces m dir name newdir newname e p = false := by
  rcases renameAtCases (.rename .fs) dir name newdir newname e m with
    ⟨err,same⟩ | ⟨up,p,up',p',v,at_,there,renamed,same⟩
  · rw [same] at here
    refine ⟨q,here,?_⟩
    unfold replaces
    rw [same]
    split <;> first | rfl | contradiction
  · rw [same] at here
    have each : ∀ q, replaces m dir name newdir newname e q = (decide (q = p' ++ [newname]) &&
        decide (m.vol.tree.find (p ++ [name]) ≠ m.vol.tree.find q)) := by
      intro q
      simp only [replaces,at_,there,same]
    rcases renameOk renamed with ⟨rfl,one⟩ | ⟨nodes,_,apart,find⟩
    · refine ⟨q,here,?_⟩
      rw [each]
      by_cases new : q = p' ++ [newname]
      · simp [new,one]
      · simp [new]
    · obtain ⟨found,record⟩ := here
      have kept : recordOf m.vol ino = some value := by simpa [recordOf,nodes] using record
      rw [find] at found
      split at found
      · refine ⟨_,⟨found,kept⟩,?_⟩
        have below : ∀ tail, (p ++ [name]) ++ tail ≠ p' ++ [newname] := fun tail same => apart ⟨tail,same⟩
        rw [each]
        simp only [below,decide_false,Bool.false_and]
      · rename_i outside
        split at found <;> try contradiction
        have other : q ≠ p' ++ [newname] := fun same => outside (same ▸ List.prefix_rfl)
        exact ⟨q,⟨found,kept⟩,by simp [each,other]⟩

/- No recorded path lies under the ID path that is renamed, nor under the one it is
renamed over, but for a shared file that is replaced in the same step. -/
def renameFits (d : State) (parent : Ref) (name : FileName) (newparent : Ref) (newname : FileName)
    (flags : Bool) (e : Env Call) : Bool := flags || match d.inode parent,d.inode newparent with
  | some dir,some ndir => match d.id.dirAt dir.idFd,d.id.dirAt ndir.idFd with
      | .ok (_,p),.ok (_,q) => (recorded d.fs.vol).all fun x =>
          !((p ++ [name]).map Subtype.val).isPrefixOf x.2 &&
          (!((q ++ [newname]).map Subtype.val).isPrefixOf x.2 ||
            replaces d.fs dir.fd name ndir.fd newname e x.1)
      | _,_ => true
  | _,_ => true

theorem renameMount (c : Call) (dir : Slot) (name : FileName) (newdir : Slot) (newname : FileName)
    (e : Env Call) (m : Mount Call) :
    (renameAt c dir name newdir newname e m).2.vol.mount = m.vol.mount := by
  rcases renameAtCases c dir name newdir newname e m with ⟨err,same⟩ | ⟨_,_,_,_,v,_,_,renamed,same⟩
  · rw [same]
  · rw [same]
    rcases renameOk renamed with ⟨rfl,_⟩ | ⟨_,mount,_⟩
    · rfl
    · exact mount

theorem renameRecorded {parent name newparent newname flags e} {d d' : State} (before : Recorded d)
    (fits : renameFits d parent name newparent newname flags e = true)
    (ok : sfsRename parent name newparent newname flags e d = some ((),d')) : Recorded d' := by
  obtain ⟨dir,ndir,known,known',outcome⟩ := renameSome ok
  rcases outcome with ⟨replies,rfl⟩ | ⟨rfl,both⟩
  · exact recordedGrown (repliesGrown d replies) before
  refine recordedFrom before (by rw [both.fs,renameMount]) both.conf both.pairs fun here => ?_
  rw [both.fs] at here
  obtain ⟨q0,old,remains⟩ := recordRenamed here
  refine ⟨⟨q0,old⟩,fun {p0 i} path found => ?_⟩
  rw [both.id]
  rcases renameAtCases (.rename .id) dir.idFd name ndir.idFd newname e d.id with
    ⟨err,same⟩ | ⟨up,p,up',q,v,at_,there,renamed,same⟩
  · rw [same,found]
  · rw [same]
    rcases renameOk renamed with ⟨rfl,_⟩ | ⟨_,_,_,find⟩
    · exact found
    · simp only [renameFits,known,known',at_,there,Bool.false_or,List.all_eq_true] at fits
      have one := fits _ old.mem
      simp only [remains,Bool.or_false,Bool.and_eq_true,Bool.not_eq_true',← path] at one
      have outside : ∀ {r : List FileName}, (r.map Subtype.val).isPrefixOf (p0.map Subtype.val) = false →
          ¬ r <+: p0 := by
        intro r no under
        rw [List.isPrefixOf_iff_prefix.mpr (under.map Subtype.val)] at no
        contradiction
      simp [find,outside one.1,outside one.2,found]

def Fits (d : State) (e : Env Call) : Req → Prop
  | .create parent name _ => createFits d parent name = true
  | .rename parent name newparent newname flags => renameFits d parent name newparent newname flags e = true
  | .unlink parent name => unlinkFits d parent name e = true
  | .setxattr _ name _ _ => f3Filepath ≠ name
  | .removexattr _ name => f3Filepath ≠ name
  | _ => True

def Kept (d : State) : Step → Prop
  | .request req e => Faithful d req ∧ Fits d e req
  | .restart => True

theorem handleRecorded {req e} {d d' : State} (before : Recorded d) (kept : Fits d e req)
    (ok : handle req e d = some ((),d')) : Recorded d' := by
  cases req with
  | lookup parent name => exact progRecorded (sfsLookupGrown parent name) ok before
  | mknod parent name kind link => exact mknodRecorded before ok
  | link ino parent name => exact linkRecorded before ok
  | create parent name flags => exact createRecorded before kept ok
  | rmdir parent name => exact rmdirRecorded before ok
  | rename parent name newparent newname flags => exact renameRecorded before kept ok
  | unlink parent name => exact unlinkRecorded before kept ok
  | forget ino n =>
    exact progRecorded (keepsBind (namedGrown (forgetOneNamed ino n)) fun _ => replyGrown _) ok before
  | forgetMulti forgets =>
    exact progRecorded (keepsBind (namedGrown (forgetAllNamed forgets)) fun _ => replyGrown _)
      ok before
  | readdirplus ino stream =>
    exact progRecorded (keepsBind (getInodeKeeps ino) fun _ => readdirGrown ino stream []) ok before
  | openFile ino flags => exact progRecorded (namedGrown (openNamed ino flags)) ok before
  | release ino fh => exact progRecorded (namedGrown (releaseNamed (by decide) ino fh)) ok before
  | writeBuf ino fh off data => exact progRecorded (namedGrown (namedData.write ino fh off data)) ok before
  | getattr ino => exact progRecorded (namedGrown (namedData.getattr ino)) ok before
  | setattr ino size fi => exact progRecorded (namedGrown (namedData.setattr ino size fi)) ok before
  | setxattr ino name value flag =>
    exact progRecorded (namedGrown (setxattrNamed kept ino value flag)) ok before
  | removexattr ino name => exact progRecorded (namedGrown (removexattrNamed kept ino)) ok before

theorem stepRecorded {d d' : State} {s} (before : Recorded d) (kept : Kept d s)
    (ok : step d s = some d') : Recorded d' := by
  cases s with
  | request req e =>
    obtain ⟨⟨_,d1⟩,done,rfl⟩ := Option.map_eq_some_iff.mp ok
    have kept1 : Fits {d with replies := []} e req := by cases req <;> exact kept.2
    exact handleRecorded (recordedGrown (repliesGrown d []) before) kept1 done
  | restart =>
    cases Option.some.inj ok
    exact ⟨rfl,before.text,before.named⟩

def SameSent (d d' : State) : Prop := d'.sent = d.sent

instance : IsPreorder State SameSent where
  refl _ := rfl
  trans _ _ _ one two := two.trans one

theorem sysSent {α : Type} (side : Side) (p : Sys Call α) : Prog.Keeps SameSent (sys side p) := by
  intro e d a d' ok
  rw [(sysSome ok).2]
  cases side <;> rfl

theorem setInodeSent (ref : Ref) (f : Inode → Inode) : Prog.Keeps SameSent (setInode ref f) :=
  Prog.keepsModify fun d => by cases ref <;> rfl

theorem replySent (r : Reply) : Prog.Keeps SameSent (reply r) := Prog.keepsModify fun _ => rfl

structure AskCalm (e : Env Call) (inode : Inode) : Prop where
  thread : inode.clientFd ≠ none ∧ e.fault .spawn = none ∧ e.fault .request = none
  opens : e.fault (.getOpen f3Filepath) = none
  reads : e.fault (.getAttr f3Filepath) = none

theorem openAsks {ref flags e} {d d' : State} {inode f value} (known : d.inode ref = some inode)
    (needs : inode.needsDownload = true) (calm : AskCalm e inode) (file : d.fs.file inode.fd = some f)
    (reg : f.entry.kind = .reg) (record : recordOf d.fs.vol f.entry.ino = some value)
    (short : value.length ≤ 4096) (plain : 0 ∉ value) (ok : sfsOpen ref flags e d = some ((),d')) :
    ∃ servers, d'.sent = d.sent ++ [.download value servers] := by
  obtain ⟨i,d0,first,rest⟩ := bindSome ok
  obtain ⟨rfl,same,_⟩ := getInodeSome first
  cases Option.some.inj (known.symm.trans same)
  obtain ⟨_,_,got,rest⟩ := bindSome rest
  cases Option.some.inj got
  obtain ⟨_,d1,started,opened⟩ := bindSome rest
  rw [Prog.onlyIf,if_pos needs] at started
  obtain ⟨relPath,w1,read,calls⟩ := bindSome started
  obtain ⟨servers,w2,listed,calls⟩ := bindSome calls
  obtain ⟨_,d2,asked,last⟩ := bindSome calls
  have before : w2.sent = d0.sent := trans_of SameSent (sysSent .fs _ e _ _ w1 read) (sysSent .fs _ e _ _ w2 listed)
  have request : d2.sent = w2.sent ++ [.download relPath servers] := by
    rw [requestFile,if_pos calm.thread] at asked
    cases Option.some.inj asked
    rfl
  have sized : SameSent d2 d1 :=
    keepsBind (sysSent .fs _) (fun _ => setInodeSent ref _) e d2 _ d1 last
  have replied : SameSent d1 d' := by
    refine keepsBind (sysSent inode.side _) (fun r => ?_) e d1 _ d' opened
    cases r with
    | error err => exact replySent _
    | ok fd => exact keepsBind (setInodeSent ref _) fun _ => replySent _
  have after : d'.sent = d2.sent := trans_of SameSent sized replied
  have path : relPath = value :=
    (sysSome read).1.trans (f3GetAttrExact file (Or.inr reg) calm.opens calm.reads record short plain)
  exact ⟨servers,by rw [after,request,before,path]⟩

instance (d s) : Decidable (Kept d s) := by
  unfold Kept Fits
  rcases s with ⟨req,_⟩ | _
  · rcases req <;> infer_instance
  · infer_instance

def keptRun : List Step :=
  [.request (.mknod .root nameB .dir []) (calm 10),
   .request (.create .root nameId forWriting) (calm 11),
   .request (.link (.node 1) (.node 0) nameA) (calm 12),
   .request (.rename .root nameB .root nameA false) (calm 12),
   .request (.unlink (.node 0) nameA) (calm 12)]

def consumer (d : State) : State :=
  boot ⟨[47,105],[50],true⟩ d.fs.vol (emptyVolume 9 ⟨[105],okI⟩)

def consumed (d : State) : Option State :=
  step (consumer d) (.request (.lookup .root nameId) (calm 20))

end F3.Driver.Paths
