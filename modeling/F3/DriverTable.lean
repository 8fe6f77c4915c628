import F3.DriverLookup

/-! One lookup, and the inode table. The first part of do_lookup reads the shared tree
alone; the rest counts a live inode or builds one, and an inode that is built keeps
every field of the cell that nothing assigns. -/
namespace F3.Driver
open Lib (Bytes Arena Cell Prog Act)
open Lib.Prog (bindSome bindEq)
open Lib.Posix

def resolve (e : Env Call) (m : Mount Call) (srcDev : Dev) (dir : Inode) (name : FileName) :
    Option (Slot × Stat) :=
  match (openPath .lookupOpen dir.fd name e m).1 with
  | .error _ => none
  | .ok newfd => match (fstat .lookupStat newfd e (openPath .lookupOpen dir.fd name e m).2).1 with
      | .error _ => none
      | .ok attr => if attr.dev ≠ srcDev ∨ attr.ino = 1 then none else some (newfd,attr)

theorem resolved {e m srcDev dir name newfd attr}
    (ok : resolve e m srcDev dir name = some (newfd,attr)) :
    ∃ up p entry, m.dirAt dir.fd = .ok (up,p) ∧ m.vol.tree.find (p ++ [name]) = some entry ∧
      newfd = .fd m.next ∧ attr = m.vol.stat entry ∧ attr.dev = srcDev := by
  unfold resolve at ok
  rcases openPathCases .lookupOpen dir.fd name e m with ⟨err,same⟩ | ⟨up,p,entry,at_,found,same⟩
  · simp [same] at ok
  · simp only [same] at ok
    rcases fstatCases .lookupStat (.fd m.next) e (m.install ⟨entry,some (up,name),.path⟩) with
      ⟨err,stat⟩ | ⟨f,there,stat⟩
    · simp [stat] at ok
    · rw [fileInstall] at there
      cases Option.some.inj there
      simp only [stat] at ok
      split at ok <;> try contradiction
      rename_i inside
      cases Option.some.inj ok
      exact ⟨up,p,entry,at_,found,rfl,rfl,Classical.not_not.mp (fun h => inside (Or.inl h))⟩

def isNewHere (e : Env Call) (m : Mount Call) (dir : Inode) (name : FileName) : Bool :=
  (f3IsId .lookup dir.fd e (openPath .lookupOpen dir.fd name e m).2).1 || f3IsIdExt name.val

def Inode.built (i : Inode) (key : SrcId) (newfd : Slot) (isNew : Bool) (copy : Slot × Bool)
    (conn : Option Nat) : Inode :=
  {i.fill key newfd with
    isId := i.isId || isNew
    needsDownload := i.needsDownload || (copy.2 && (i.isId || isNew))
    clientFd := if copy.2 && (i.isId || isNew) then conn else i.clientFd
    idFd := copy.1}

theorem inodeNode {d : State} {a c} (here : d.inodes.atAddr a = some c) :
    d.inode (.node a) = some c.value := by
  simp [State.inode,here]

theorem inodeOther {d : State} {ref : Ref} {a : Nat} (f : Inode → Inode) (apart : ref ≠ .node a) :
    (d.setInode (.node a) f).inode ref = d.inode ref := by
  cases ref with
  | root => rfl
  | node b =>
    have other : b ≠ a := fun same => apart (by rw [same])
    simp [State.inode,State.setInode,Arena.atAddrModifyOther other]

theorem f3IsNewIdEq {caller parent name e} {d : State} {dir}
    (up : getInode parent e d = some (dir,d)) :
    f3IsNewId caller parent name e d =
      some ((f3IsId caller dir.fd e d.fs).1 || f3IsIdExt name.val,
        d.setMount .fs (f3IsId caller dir.fd e d.fs).2) := by
  unfold f3IsNewId
  rw [bindEq up]
  rfl

theorem f3IsNewIdSome {caller parent name e} {d : State} {b t}
    (ok : f3IsNewId caller parent name e d = some (b,t)) : ∃ dir, d.inode parent = some dir ∧
      b = ((f3IsId caller dir.fd e d.fs).1 || f3IsIdExt name.val) ∧
      t = d.setMount .fs (f3IsId caller dir.fd e d.fs).2 := by
  obtain ⟨dir,d1,got,_⟩ := bindSome ok
  obtain ⟨rfl,known,_⟩ := getInodeSome got
  rw [f3IsNewIdEq got] at ok
  cases Option.some.inj ok
  exact ⟨dir,known,rfl,rfl⟩

theorem newIdSome {caller parent name e} {d : State} {b d'}
    (ok : f3IsNewId caller parent name e d = some (b,d')) :
    ∃ m, d' = {d with fs := m} ∧ Quiet d.fs m := by
  obtain ⟨dir,_,_,rfl⟩ := f3IsNewIdSome ok
  exact ⟨_,rfl,f3IsIdQuiet caller dir.fd e d.fs⟩

theorem newIdSound {caller parent name e} {d : State} {dir d'} (up : d.inode parent = some dir)
    (ok : f3IsNewId caller parent name e d = some (true,d')) : isNewId d.fs dir name = true := by
  obtain ⟨_,known,yes,_⟩ := f3IsNewIdSome ok
  cases Option.some.inj (up.symm.trans known)
  rcases (Bool.or_eq_true _ _).mp yes.symm with here | here
  · obtain ⟨f,there,mark⟩ := f3IsIdSound here
    simp [isNewId,there,mark]
  · simp [isNewId,here]

theorem setupConnEq (e : Env Call) (d : State) :
    ∃ conn sockets, setupConn e d = some (conn,{d with sockets := sockets}) := by
  unfold setupConn
  split
  · exact ⟨none,d.sockets,rfl⟩
  · exact ⟨none,d.sockets + 1,rfl⟩
  · exact ⟨some d.sockets,d.sockets + 1,rfl⟩

theorem onlyIfEq {c : Prop} [Decidable c] (f : State → State) (e : Env Call) (d : State) :
    Prog.onlyIf c (Prog.modify f) e d = some ((),if c then f d else d) := by
  unfold Prog.onlyIf
  split <;> rfl

theorem attachRuns {a e} {name : FileName} {kind : Kind} {idParent : Slot} {d : State} {c}
    (here : d.inodes.atAddr a = some c) (filled : c.value.fd ≠ .closed) :
    ∃ conn d', attachCopy idParent name kind a e d = some ((),d') ∧
      d'.id = (openIdCopy idParent name kind e d.id).2 ∧
      d'.inodes = d.inodes.modify a (fun i =>
        let copy := (openIdCopy idParent name kind e d.id).1
        {i with
          needsDownload := i.needsDownload || (copy.2 && i.isId)
          clientFd := if copy.2 && i.isId then conn else i.clientFd
          idFd := copy.1}) := by
  let copy := (openIdCopy idParent name kind e d.id).1
  let d1 := d.setMount .id (openIdCopy idParent name kind e d.id).2
  let attach : Inode → Inode := fun i => {i with idFd := copy.1}
  have opened : sys .id (openIdCopy idParent name kind) e d = some (copy,d1) := rfl
  have known : getInode (.node a) e d1 = some (c.value,d1) :=
    getInodeEq e (by rw [setMountInode]; exact inodeNode here) (fun _ => filled)
  unfold attachCopy
  rw [bindEq opened,bindEq known]
  by_cases missing : copy.2 = true ∧ c.value.isId = true
  · obtain ⟨conn,sockets,connected⟩ := setupConnEq e d1
    let fetch : Inode → Inode := fun i => {i with needsDownload := true, clientFd := conn}
    let d2 := {d1 with sockets := sockets}.setInode (.node a) fetch
    refine ⟨conn,d2.setInode (.node a) attach,?_,rfl,?_⟩
    · rw [Prog.onlyIf,if_pos missing]
      have fetched : (setupConn >>= fun conn => setInode (.node a) (fun i =>
          {i with needsDownload := true, clientFd := conn})) e d1 = some ((),d2) := by
        rw [bindEq connected]
        rfl
      exact bindEq fetched
    · simp only [State.setInode,d2,d1,Arena.modifyModify,setMountInodes]
      exact Arena.modifyCongr here (by simp [fetch,attach,copy,missing.1,missing.2])
  · have flag : (copy.2 && c.value.isId) = false := by simpa using missing
    refine ⟨none,d1.setInode (.node a) attach,?_,rfl,?_⟩
    · rw [Prog.onlyIf,if_neg missing]
      rfl
    · simp only [State.setInode,d1,setMountInodes]
      exact Arena.modifyCongr here (by simp [attach,copy,flag])

theorem buildRuns {parent name a newfd e} {attr : Stat} {d : State} {dir c}
    (up : getInode parent e d = some (dir,d)) (apart : parent ≠ .node a)
    (here : d.inodes.atAddr a = some c) (opened : newfd ≠ .closed) :
    ∃ conn d', buildInode parent name a newfd attr e d = some ((),d') ∧
      d'.id = (openIdCopy dir.idFd name attr.kind e d.id).2 ∧
      d'.inodes = d.inodes.modify a (fun i => i.built (attr.ino,attr.dev) newfd
        ((f3IsId .lookup dir.fd e d.fs).1 || f3IsIdExt name.val)
        (openIdCopy dir.idFd name attr.kind e d.id).1 conn) := by
  obtain ⟨_,known,filled⟩ := getInodeSome up
  let fill : Inode → Inode := fun i => i.fill (attr.ino,attr.dev) newfd
  let d1 := d.setInode (.node a) fill
  have up1 : getInode parent e d1 = some (dir,d1) :=
    getInodeEq e ((inodeOther fill apart).trans known) filled
  let isNew := (f3IsId .lookup dir.fd e d.fs).1 || f3IsIdExt name.val
  let d2 := d1.setMount .fs (f3IsId .lookup dir.fd e d.fs).2
  have asked : f3IsNewId .lookup parent name e d1 = some (isNew,d2) := f3IsNewIdEq up1
  let mark : Inode → Inode := fun i => {i with isId := true}
  let d3 := if isNew = true then d2.setInode (.node a) mark else d2
  have table : d3.inodes = d.inodes.modify a (fun i => {fill i with isId := i.isId || isNew}) := by
    cases new : isNew with
    | false => simp [d3,d2,d1,new,State.setInode,fill,Inode.fill]
    | true => simp [d3,d2,d1,new,State.setInode,Arena.modifyModify,mark,fill,Inode.fill]
  have idSame : d3.id = d.id := by
    simp only [d3]
    split <;> rfl
  have at3 : d3.inodes.atAddr a = some {c with value := {fill c.value with isId := c.value.isId || isNew}} := by
    rw [table]
    exact Arena.atAddrModify here
  obtain ⟨conn,d',rest,copied,last⟩ := @attachRuns a e name attr.kind dir.idFd d3 _ at3 opened
  refine ⟨conn,d',?_,idSame ▸ copied,?_⟩
  · unfold buildInode
    rw [bindEq up,bindEq (show setInode (.node a) fill e d = some ((),d1) from rfl),
      bindEq asked]
    exact (bindEq (onlyIfEq (fun d => d.setInode (.node a) mark) e d2)).trans rest
  · rw [last,table,idSame,Arena.modifyModify]
    rfl

def Answered (e : Env Call) (m : Mount Call) (isId : Bool) (idFd : Slot)
    (r : Except Errno EntryParam) : Prop :=
  isId = true ∧ (∃ err, (fstat .lookupStatId idFd e m).1 = .error err ∧ r = .error err) ∨
    (isId = true → ∃ st, (fstat .lookupStatId idFd e m).1 = .ok st) ∧ ∃ x, r = .ok x

theorem statDev {c : Call} {slot : Slot} {e} {m : Mount Call} {st}
    (stat : (fstat c slot e m).1 = .ok st) : st.dev = m.vol.dev := by
  rcases fstatCases c slot e m with ⟨err,same⟩ | ⟨f,_,same⟩
  · rw [same] at stat
    cases stat
  · rw [same] at stat
    cases Except.ok.inj stat
    rfl

theorem statFile {c : Call} {slot : Slot} {e} {m : Mount Call} {st}
    (stat : (fstat c slot e m).1 = .ok st) : ∃ f, m.file slot = some f := by
  rcases fstatCases c slot e m with ⟨err,same⟩ | ⟨f,there,_⟩
  · rw [same] at stat
    cases stat
  · exact ⟨f,there⟩

theorem answerRuns {a generation newfd e} {attr : Stat} {d : State} {c}
    (here : d.inodes.atAddr a = some c) (filled : c.value.fd ≠ .closed) :
    ∃ r d' src, answerAttr a generation newfd attr e d = some (r,d') ∧
      d'.inodes = d.inodes.modify a (fun i => {i with src := src}) ∧
      (c.value.isId = false → src = c.value.src) ∧ (∀ x, r = .ok x → x.ino = some a) ∧
      d'.id = d.id ∧ Answered e d.id c.value.isId c.value.idFd r ∧
      (src = c.value.src ∨ src.2 = d.id.vol.dev) := by
  have known : getInode (.node a) e d = some (c.value,d) :=
    getInodeEq e (inodeNode here) (fun _ => filled)
  have same : d.inodes = d.inodes.modify a (fun i => {i with src := c.value.src}) :=
    (Arena.modifySame here rfl).symm
  unfold answerAttr
  rw [bindEq known]
  cases isId : c.value.isId with
  | false =>
    refine ⟨.ok ⟨some a,generation,attr⟩,d,c.value.src,rfl,same,fun _ => rfl,?_,rfl,
      .inr ⟨fun no => by contradiction,_,rfl⟩,.inl rfl⟩
    intro x ok
    cases Except.ok.inj ok
    rfl
  | true =>
    let d1 := d.setMount .id (fstat .lookupStatId c.value.idFd e d.id).2
    have asked : sys .id (fstat .lookupStatId c.value.idFd) e d =
      some ((fstat .lookupStatId c.value.idFd e d.id).1,d1) := rfl
    have idSame : d1.id = d.id := fstatState _ _ e d.id
    rw [if_pos rfl,bindEq asked]
    cases stat : (fstat .lookupStatId c.value.idFd e d.id).1 with
    | error err =>
      refine ⟨.error err,d1.setMount .fs (close newfd e d1.fs).2,c.value.src,rfl,?_,?_,?_,idSame,
        .inl ⟨rfl,err,stat,rfl⟩,.inl rfl⟩
      · rw [setMountInodes,setMountInodes]
        exact same
      · intro no
        contradiction
      · intro x ok
        contradiction
    | ok st =>
      let d2 := d1.setMount .fs (f3GetSizeXattr c.value.fd e d1.fs).2
      refine ⟨_,d2.setInode (.node a) (fun i => {i with src := (st.ino,st.dev)}),(st.ino,st.dev),
        rfl,?_,?_,?_,idSame,.inr ⟨fun _ => ⟨st,stat⟩,_,rfl⟩,.inr (statDev stat)⟩
      · simp only [State.setInode,d2,d1,setMountInodes]
      · intro no
        contradiction
      · intro x ok
        cases Except.ok.inj ok
        rfl

/- What a lookup does to the table: nothing, a count on a live inode, or an inode built
in its cell, whose other fields stay as the cell had them. -/
inductive Looked (parent : Ref) (name : FileName) (e : Env Call) (d : State)
    (r : Except Errno EntryParam) (d' : State) : Prop where
  | missed {dir} (up : d.inode parent = some dir)
      (nothing : resolve e d.fs d.conf.srcDev dir name = none) (failed : ∃ err, r = .error err)
      (table : d'.inodes = d.inodes)
  | known {dir newfd attr c src} (up : d.inode parent = some dir)
      (found : resolve e d.fs d.conf.srcDev dir name = some (newfd,attr))
      (here : d.inodes.atKey (attr.ino,attr.dev) = some c) (live : c.value.Live)
      (plain : c.value.isId = false → src = c.value.src) (named : ∀ x, r = .ok x → x.ino = some c.addr)
      (table : d'.inodes = d.inodes.modify c.addr
        (fun i => {i with nlookup := i.nlookup + 1, src := src}))
  | built {dir newfd attr c src conn} (up : d.inode parent = some dir)
      (found : resolve e d.fs d.conf.srcDev dir name = some (newfd,attr))
      (key : c.key = (attr.ino,attr.dev))
      (old : d.inodes.atKey c.key = some c ∨ d.inodes.atKey c.key = none ∧ c.value = {})
      (entered : (d.inodes.enter c.key {}).1.atAddr c.addr = some c) (dead : ¬ c.value.Live)
      (plain : (c.value.isId || isNewHere e d.fs dir name) = false → src = c.key)
      (named : ∀ x, r = .ok x → x.ino = some c.addr)
      (table : d'.inodes = (d.inodes.enter c.key {}).1.modify c.addr (fun i =>
        {i.built c.key newfd (isNewHere e d.fs dir name)
          (openIdCopy dir.idFd name attr.kind e d.id).1 conn with src := src}))

def slotted (d : State) (key : SrcId) : Inode := ((d.inodes.atKey key).map Cell.value).getD {}

theorem slottedCell {d : State} {key : SrcId} {c : Cell SrcId Inode}
    (old : d.inodes.atKey key = some c ∨ d.inodes.atKey key = none ∧ c.value = {}) : slotted d key = c.value := by
  rcases old with here | ⟨absent,empty⟩
  · simp [slotted,here]
  · simp [slotted,absent,empty]

def Sourced (d d' : State) : Prop := ∀ c ∈ d'.inodes.cells, c.value.src = c.key ∨
  c.value.src.2 = d.id.vol.dev ∨ ∃ b ∈ d.inodes.cells, b.key = c.key ∧ c.value.src = b.value.src

def Told (name : FileName) (e : Env Call) (d : State) (dir : Inode) (r : Except Errno EntryParam)
    (d' : State) : Prop :=
  match resolve e d.fs d.conf.srcDev dir name with
  | none => d'.id = d.id
  | some (_,attr) =>
      let i := slotted d (attr.ino,attr.dev)
      if i.Live then d'.id = d.id ∧ Answered e d.id i.isId i.idFd r
      else d'.id = (openIdCopy dir.idFd name attr.kind e d.id).2 ∧
        Answered e d'.id (i.isId || isNewHere e d.fs dir name)
          (openIdCopy dir.idFd name attr.kind e d.id).1.1 r

theorem enterCell (t : Arena SrcId Inode) (key : SrcId) :
    ∃ c, (t.enter key {}).2 = c.addr ∧ c.key = key ∧ (t.enter key {}).1.atAddr c.addr = some c ∧
      (t.atKey key = some c ∨ t.atKey key = none ∧ c.value = {}) := by
  cases found : t.atKey key with
  | some c =>
    obtain ⟨mem,same⟩ := Arena.atKeyMem found
    rw [Arena.enterKnown {} found]
    exact ⟨c,rfl,same,Arena.memAtAddr mem,Or.inl rfl⟩
  | none =>
    rw [Arena.enterNew {} found]
    exact ⟨⟨t.next,key,{}⟩,rfl,rfl,Arena.atAddrInsert found,Or.inr ⟨rfl,rfl⟩⟩

theorem dirAtLive {m : Mount Call} {i : Inode} {up p} (at_ : m.dirAt i.fd = .ok (up,p)) : i.Live := by
  unfold Mount.dirAt at at_
  split at at_ <;> try contradiction
  rename_i f known
  constructor
  · intro closed
    rw [closed] at known
    simp [Mount.file] at known
  · intro unlinked
    rw [unlinked] at known
    simp [Mount.file] at known

theorem inodeEntered {d : State} {ref : Ref} {i} (key : SrcId) (known : d.inode ref = some i) :
    {d with inodes := (d.inodes.enter key {}).1}.inode ref = some i := by
  cases ref with
  | root => exact known
  | node a =>
    obtain ⟨c,here,same⟩ := Option.map_eq_some_iff.mp known
    simp [State.inode,Arena.atAddrEnter {} here,same]

theorem countRuns {parent name e newfd} {attr : Stat} {d : State} {c}
    (here : d.inodes.atAddr c.addr = some c) (live : c.value.Live) :
    ∃ r d' src, (enterInode parent name c.addr newfd attr c.value >>= fun _ =>
        answerAttr c.addr c.value.generation newfd attr) e d = some (r,d') ∧
      (∀ x, r = .ok x → x.ino = some c.addr) ∧ (c.value.isId = false → src = c.value.src) ∧
      d'.inodes = d.inodes.modify c.addr (fun i => {i with nlookup := i.nlookup + 1, src := src}) ∧
      d'.id = d.id ∧ Answered e d.id c.value.isId c.value.idFd r ∧
      (src = c.value.src ∨ src.2 = d.id.vol.dev) := by
  let count : Inode → Inode := fun i => {i with nlookup := i.nlookup + 1}
  let d1 := d.setInode (.node c.addr) count
  let d2 := d1.setMount .fs (close newfd e d1.fs).2
  have counted : enterInode parent name c.addr newfd attr c.value e d = some ((),d2) := by
    rw [enterInode,if_pos live]
    rfl
  have at2 : d2.inodes.atAddr c.addr = some {c with value := count c.value} := by
    simp only [d2,setMountInodes]
    exact Arena.atAddrModify here
  obtain ⟨r,d',src,answered,table,plain,named,told⟩ :=
    @answerRuns c.addr c.value.generation newfd e attr d2 _ at2 live.1
  refine ⟨r,d',src,(bindEq counted).trans answered,named,plain,?_,told⟩
  rw [table]
  simp only [d2,setMountInodes,d1,State.setInode,Arena.modifyModify]
  rfl

theorem freshRuns {parent name e newfd} {attr : Stat} {d : State} {dir c}
    (up : getInode parent e d = some (dir,d)) (live : dir.Live)
    (here : d.inodes.atAddr c.addr = some c) (dead : ¬ c.value.Live) (opened : newfd ≠ .closed) :
    ∃ r d' src conn, (enterInode parent name c.addr newfd attr c.value >>= fun _ =>
        answerAttr c.addr c.value.generation newfd attr) e d = some (r,d') ∧
      (∀ x, r = .ok x → x.ino = some c.addr) ∧
      ((c.value.isId || ((f3IsId .lookup dir.fd e d.fs).1 || f3IsIdExt name.val)) = false →
        src = (attr.ino,attr.dev)) ∧
      d'.inodes = d.inodes.modify c.addr (fun i =>
        {i.built (attr.ino,attr.dev) newfd ((f3IsId .lookup dir.fd e d.fs).1 || f3IsIdExt name.val)
          (openIdCopy dir.idFd name attr.kind e d.id).1 conn with src := src}) ∧
      d'.id = (openIdCopy dir.idFd name attr.kind e d.id).2 ∧
      Answered e d'.id (c.value.isId || ((f3IsId .lookup dir.fd e d.fs).1 || f3IsIdExt name.val))
        (openIdCopy dir.idFd name attr.kind e d.id).1.1 r ∧
      (src = (attr.ino,attr.dev) ∨ src.2 = d'.id.vol.dev) := by
  have apart : parent ≠ .node c.addr := by
    rintro rfl
    have known := (getInodeSome up).2.1
    rw [inodeNode here] at known
    cases Option.some.inj known
    exact dead live
  obtain ⟨conn,d1,built,copied,table1⟩ := @buildRuns parent name c.addr newfd e attr d dir c up apart here opened
  have entered : enterInode parent name c.addr newfd attr c.value e d = some ((),d1) := by
    rw [enterInode,if_neg dead]
    exact built
  let new := c.value.built (attr.ino,attr.dev) newfd
    ((f3IsId .lookup dir.fd e d.fs).1 || f3IsIdExt name.val)
    (openIdCopy dir.idFd name attr.kind e d.id).1 conn
  have at1 : d1.inodes.atAddr c.addr = some {c with value := new} := by
    rw [table1]
    exact Arena.atAddrModify here
  obtain ⟨r,d',src,answered,table,plain,named,idSame,told⟩ :=
    @answerRuns c.addr c.value.generation newfd e attr d1 _ at1 opened
  refine ⟨r,d',src,conn,(bindEq entered).trans answered,named,plain,?_,idSame.trans copied,
    idSame ▸ told⟩
  rw [table,table1,Arena.modifyModify]

theorem foundRuns {parent e newfd} {name : FileName} {attr : Stat} {d : State} {dir}
    (up : d.inode parent = some dir) (filled : parent ≠ .root → dir.fd ≠ .closed)
    (found : resolve e d.fs d.conf.srcDev dir name = some (newfd,attr)) :
    ∃ r d', (inodeAt (attr.ino,attr.dev) >>= fun addr => Prog.get >>= fun known =>
        match known.inode (.node addr) with
        | none => Prog.abort
        | some inode => enterInode parent name addr newfd attr inode >>= fun _ =>
            answerAttr addr inode.generation newfd attr) e
          {d with fs := (openPath .lookupOpen dir.fd name e d.fs).2} = some (r,d') ∧
      Looked parent name e d r d' ∧ Told name e d dir r d' ∧ Sourced d d' := by
  obtain ⟨upEntry,p,entry,at_,_,newest,_,_⟩ := resolved found
  obtain ⟨c,addr,key,entered,old⟩ := enterCell d.inodes (attr.ino,attr.dev)
  let d2 : State := {d with fs := (openPath .lookupOpen dir.fd name e d.fs).2}
  let d3 := {d2 with inodes := (d.inodes.enter (attr.ino,attr.dev) {}).1}
  have inserted : inodeAt (attr.ino,attr.dev) e d2 = some (c.addr,d3) := by
    rw [← addr]
    rfl
  have at3 : d3.inodes.atAddr c.addr = some c := entered
  rw [bindEq inserted,bindEq (show Prog.get e d3 = some (d3,d3) from rfl)]
  simp only [inodeNode at3]
  simp only [Told,found,slottedCell old]
  by_cases live : c.value.Live
  · obtain ⟨r,d',src,runs,named,plain,table,idSame,told,stamped⟩ :=
      @countRuns parent name e newfd attr d3 c at3 live
    have here : d.inodes.atKey (attr.ino,attr.dev) = some c := by
      refine old.resolve_right fun fresh => ?_
      rw [fresh.2] at live
      exact live.1 rfl
    rw [show d3.inodes = d.inodes from congrArg Prod.fst (Arena.enterKnown {} here)] at table
    refine ⟨r,d',runs,.known up found here live plain named table,by rw [if_pos live]; exact ⟨idSame,told⟩,?_⟩
    rw [Sourced,table]
    refine Arena.allModify (fun b mem _ => .inr (.inr ⟨b,mem,rfl,rfl⟩)) fun b mem same => ?_
    cases Arena.sameAddr mem (Arena.atKeyMem here).1 same
    rcases stamped with stays | stamped
    · exact .inr (.inr ⟨c,mem,rfl,stays⟩)
    · exact .inr (.inl stamped)
  · have up3 : getInode parent e d3 = some (dir,d3) :=
      getInodeEq e (inodeEntered (d := d2) _ (by cases parent <;> exact up)) filled
    obtain ⟨r,d',src,conn,runs,named,plain,table,copied,told,stamped⟩ := @freshRuns parent name e newfd
      attr d3 dir c up3 (dirAtLive at_) at3 live (by simp [newest])
    rw [← key] at old entered plain table stamped
    rw [show d3.inodes = (d.inodes.enter c.key {}).1 by rw [key]] at table
    refine ⟨r,d',runs,.built up found key old entered live plain named table,
      by rw [if_neg live]; exact ⟨copied,told⟩,?_⟩
    rw [Sourced,table]
    refine Arena.allModify (fun b mem other => ?_) fun b mem same => ?_
    · exact .inr (.inr ⟨b,Arena.enterOthers entered rfl b mem other,rfl,rfl⟩)
    · cases Arena.onlyAt entered mem same
      rcases stamped with keyed | stamped
      · exact .inl keyed
      · refine .inr (.inl (stamped.trans ?_))
        rw [copied]
        exact (openIdCopyGrows dir.idFd name attr.kind e d.id).dev

theorem lookupRuns {parent e} {name : FileName} {d : State} {dir}
    (up : getInode parent e d = some (dir,d)) :
    ∃ r d', doLookup parent name e d = some (r,d') ∧ Looked parent name e d r d' ∧
      Told name e d dir r d' ∧ Sourced d d' := by
  obtain ⟨_,known,filled⟩ := getInodeSome up
  have same : ∀ {d' : State}, d'.inodes = d.inodes → Sourced d d' :=
    fun table c mem => .inr (.inr ⟨c,table ▸ mem,rfl,rfl⟩)
  unfold doLookup
  rw [bindEq up]
  let d1 := d.setMount .fs (openPath .lookupOpen dir.fd name e d.fs).2
  have first : sys .fs (openPath .lookupOpen dir.fd name) e d =
    some ((openPath .lookupOpen dir.fd name e d.fs).1,d1) := rfl
  rw [bindEq first]
  cases opened : (openPath .lookupOpen dir.fd name e d.fs).1 with
  | error err =>
    have nothing : resolve e d.fs d.conf.srcDev dir name = none := by simp [resolve,opened]
    exact ⟨.error err,d1,rfl,.missed known nothing ⟨err,rfl⟩ rfl,by rw [Told,nothing]; rfl,same rfl⟩
  | ok newfd =>
    have second : sys .fs (fstat .lookupStat newfd) e d1 =
        some ((fstat .lookupStat newfd e (openPath .lookupOpen dir.fd name e d.fs).2).1,d1) := by
      show some (_,d1.setMount .fs (fstat .lookupStat newfd e d1.fs).2) = _
      rw [fstatState]
      rfl
    simp only
    rw [bindEq second]
    cases stat : (fstat .lookupStat newfd e (openPath .lookupOpen dir.fd name e d.fs).2).1 with
    | error err =>
      have nothing : resolve e d.fs d.conf.srcDev dir name = none := by simp [resolve,opened,stat]
      exact ⟨.error err,d1.setMount .fs (close newfd e d1.fs).2,rfl,
        .missed known nothing ⟨err,rfl⟩ rfl,by rw [Told,nothing]; rfl,same rfl⟩
    | ok attr =>
      simp only
      rw [bindEq (show Prog.get e d1 = some (d1,d1) from rfl)]
      by_cases foreign : attr.dev ≠ d.conf.srcDev
      · have nothing : resolve e d.fs d.conf.srcDev dir name = none := by
          simp [resolve,opened,stat,foreign]
        exact ⟨.error .enotsup,d1,by rw [if_pos (show attr.dev ≠ d1.conf.srcDev from foreign)]; rfl,
          .missed known nothing ⟨_,rfl⟩ rfl,by rw [Told,nothing]; rfl,same rfl⟩
      rw [if_neg (show ¬ attr.dev ≠ d1.conf.srcDev from foreign)]
      by_cases reserved : attr.ino = 1
      · have nothing : resolve e d.fs d.conf.srcDev dir name = none := by
          simp [resolve,opened,stat,reserved]
        exact ⟨.error .eio,d1,by rw [if_pos reserved]; rfl,
          .missed known nothing ⟨_,rfl⟩ rfl,by rw [Told,nothing]; rfl,same rfl⟩
      rw [if_neg reserved]
      exact foundRuns known filled (by simp [resolve,opened,stat,foreign,reserved])

theorem looked {parent e} {name : FileName} {d : State} {r d'}
    (ok : doLookup parent name e d = some (r,d')) : Looked parent name e d r d' := by
  obtain ⟨dir,u,first,_⟩ := bindSome ok
  obtain ⟨rfl,_,_⟩ := getInodeSome first
  obtain ⟨r1,d1,runs,spec,_⟩ := @lookupRuns parent e name u dir first
  rw [ok] at runs
  cases Option.some.inj runs
  exact spec

inductive FoundAs (name : FileName) (e : Env Call) (d : State) (dir : Inode) (entry : Entry) (x : EntryParam)
    (d' : State) : Prop where
  | known {c src} (resolves : resolve e d.fs d.conf.srcDev dir name = some (.fd d.fs.next,d.fs.vol.stat entry))
      (here : d.inodes.atKey (entry.ino,d.fs.vol.dev) = some c) (live : c.value.Live)
      (named : x.ino = some c.addr)
      (table : d'.inodes = d.inodes.modify c.addr
        (fun i => {i with nlookup := i.nlookup + 1, src := src}))
  | built {c src conn} (resolves : resolve e d.fs d.conf.srcDev dir name = some (.fd d.fs.next,d.fs.vol.stat entry))
      (key : c.key = (entry.ino,d.fs.vol.dev))
      (old : d.inodes.atKey c.key = some c ∨ d.inodes.atKey c.key = none ∧ c.value = {})
      (entered : (d.inodes.enter c.key {}).1.atAddr c.addr = some c) (dead : ¬ c.value.Live)
      (named : x.ino = some c.addr)
      (table : d'.inodes = (d.inodes.enter c.key {}).1.modify c.addr (fun i =>
        {i.built c.key (.fd d.fs.next) (isNewHere e d.fs dir name)
          (openIdCopy dir.idFd name entry.kind e d.id).1 conn with src := src}))

theorem foundAs {parent e} {name : FileName} {d : State} {dir x d'} {up entry : Entry} {p}
    (known : d.inode parent = some dir) (at_ : d.fs.dirAt dir.fd = .ok (up,p))
    (found : d.fs.vol.tree.find (p ++ [name]) = some entry)
    (ok : doLookup parent name e d = some (.ok x,d')) : FoundAs name e d dir entry x d' := by
  cases looked ok with
  | missed _ _ failed =>
    obtain ⟨err,wrong⟩ := failed
    cases wrong
  | known up' resolves here live plain named table =>
    cases known.symm.trans up'
    obtain ⟨_,_,entry',at_',found',rfl,rfl,_⟩ := resolved resolves
    cases at_.symm.trans at_'
    cases found.symm.trans found'
    exact .known resolves here live (named x rfl) table
  | built up' resolves key old entered dead plain named table =>
    cases known.symm.trans up'
    obtain ⟨_,_,entry',at_',found',rfl,rfl,_⟩ := resolved resolves
    cases at_.symm.trans at_'
    cases found.symm.trans found'
    exact .built resolves key old entered dead (named x rfl) table

theorem lookupTold {parent e} {name : FileName} {d : State} {dir r d'} (up : d.inode parent = some dir)
    (ok : doLookup parent name e d = some (r,d')) : Told name e d dir r d' := by
  obtain ⟨i,u,first,_⟩ := bindSome ok
  obtain ⟨rfl,known,_⟩ := getInodeSome first
  cases Option.some.inj (up.symm.trans known)
  obtain ⟨r1,d1,runs,_,told,_⟩ := @lookupRuns parent e name u dir first
  rw [ok] at runs
  cases Option.some.inj runs
  exact told

theorem lookupSourced {parent e} {name : FileName} {d : State} {r d'}
    (ok : doLookup parent name e d = some (r,d')) : Sourced d d' := by
  obtain ⟨dir,u,first,_⟩ := bindSome ok
  obtain ⟨rfl,_,_⟩ := getInodeSome first
  obtain ⟨r1,d1,runs,_,_,sourced⟩ := @lookupRuns parent e name u dir first
  rw [ok] at runs
  cases Option.some.inj runs
  exact sourced

theorem cellStays {parent e} {name : FileName} {d : State} {r d'} {b : Cell SrcId Inode}
    (ok : doLookup parent name e d = some (r,d')) (mem : b ∈ d.inodes.cells) (live : b.value.Live) :
    ∃ b' ∈ d'.inodes.cells, b'.addr = b.addr ∧ b'.key = b.key ∧ b'.value.fd = b.value.fd ∧
      b'.value.idFd = b.value.idFd := by
  cases looked ok with
  | missed _ _ _ table => exact ⟨b,table ▸ mem,rfl,rfl,rfl,rfl⟩
  | @known _ _ _ c _ _ _ _ _ _ _ table =>
    rw [table]
    by_cases here : b.addr = c.addr
    · rw [← here]
      exact ⟨_,Arena.memModify _ mem,rfl,rfl,rfl,rfl⟩
    · exact ⟨b,Arena.memModifyOther _ mem here,rfl,rfl,rfl,rfl⟩
  | @built _ _ _ c _ _ _ _ _ _ entered dead _ _ table =>
    have still := Arena.atAddrEnter {} (k := c.key) (Arena.memAtAddr mem)
    have other : b.addr ≠ c.addr := by
      intro here
      rw [here] at still
      cases Option.some.inj (still.symm.trans entered)
      exact dead live
    rw [table]
    exact ⟨b,Arena.memModifyOther _ (Arena.atAddrMem still).1 other,rfl,rfl,rfl,rfl⟩

theorem dirStays {parent e} {name : FileName} {d : State} {dir d'} {x : EntryParam}
    (known : d.inode parent = some dir) (ok : doLookup parent name e d = some (.ok x,d')) :
    ∃ i, d'.inode parent = some i ∧ i.fd = dir.fd ∧ i.idFd = dir.idFd := by
  cases parent with
  | root => exact ⟨dir,(congrArg some (doLookupLooks .root name e d _ d' ok).root).trans known,rfl,rfl⟩
  | node a =>
    obtain ⟨b,here,rfl⟩ := Option.map_eq_some_iff.mp known
    have live : b.value.Live := by
      have answered : ∀ {up newfd attr}, d.inode (.node a) = some up →
          resolve e d.fs d.conf.srcDev up name = some (newfd,attr) → b.value.Live := by
        intro up newfd attr isUp found
        cases known.symm.trans isUp
        obtain ⟨_,_,_,at_,_⟩ := resolved found
        exact dirAtLive at_
      cases looked ok with
      | missed _ _ failed _ =>
        obtain ⟨err,wrong⟩ := failed
        cases wrong
      | known up found => exact answered up found
      | built up found => exact answered up found
    obtain ⟨b',mem,addr,_,fd,idFd⟩ := cellStays ok (Arena.atAddrMem here).1 live
    have now : d'.inodes.atAddr a = some b' := by
      rw [← (Arena.atAddrMem here).2,← addr]
      exact Arena.memAtAddr mem
    exact ⟨b'.value,inodeNode now,fd,idFd⟩

end F3.Driver
