import F3.DriverTable
import F3.DriverFrames

/-! The key an inode is filed under. fs.inodes is keyed by the shared copy's stat, while
do_lookup puts the ID copy's stat into the inode of an ID file, and forget_one erases
what the inode says. -/
namespace F3.Driver.Keys
open Lib (Bytes Arena Cell Prog Act)
open Lib.Posix
open Lib.Run (run Meets)

def FiledCell (c : Cell SrcId Inode) : Prop :=
  c.value.src = c.key ∧ c.value.isId = false ∧ c.value.fd ≠ .closed

def Filed (d : State) : Prop := ∀ c ∈ d.inodes.cells, FiledCell c

def Refiled (i j : Inode) : Prop :=
  j.src = i.src ∧ (i.isId = false → j.isId = false) ∧ (i.fd ≠ .closed → j.fd ≠ .closed)

instance : IsPreorder Inode Refiled where
  refl _ := ⟨rfl,id,id⟩
  trans _ _ _ one two :=
    ⟨two.1.trans one.1,fun plain => two.2.1 (one.2.1 plain),fun filled => two.2.2 (one.2.2 filled)⟩

theorem minorRefiled : Minor Refiled := fun _ _ _ _ _ => ⟨rfl,id,id⟩

theorem filedTabled {d d' : State} (kept : Tabled Refiled d d') (filed : Filed d) : Filed d' := by
  intro c mem
  obtain ⟨b,memB,same,src,isId,fd⟩ := kept c mem
  obtain ⟨key,plain,filled⟩ := filed b memB
  exact ⟨src.trans (key.trans same),isId plain,fd filled⟩

theorem progFiled {α : Type} {p : Handler α} {e} {d : State} {a d'} (kept : Prog.Keeps (Tabled Refiled) p)
    (ok : p e d = some (a,d')) (filed : Filed d) : Filed d' := filedTabled (kept e d a d' ok) filed

def unbuilt (d : State) (dir : Inode) (name : FileName) : Bool := match d.fs.dirAt dir.fd with
  | .error _ => false
  | .ok (_,p) => match d.fs.vol.tree.find (p ++ [name]) with
      | none => false
      | some entry => match d.inodes.atKey (entry.ino,d.fs.vol.dev) with
          | some c => !decide c.value.Live
          | none => true

def plainLook (d : State) (parent : Ref) (name : FileName) : Bool := match d.inode parent with
  | none => true
  | some dir => !(unbuilt d dir name && isNewId d.fs dir name)

/- f3_is_id can only say less than the attributes do, and a quiet program adds none. -/
theorem markedBack {caller fd e} {m m' : Mount Call} {f} (quiet : Quiet m m')
    (known : m.file fd = some f) (yes : (f3IsId caller fd e m').1 = true) :
    marked m.vol f.entry.ino = true := by
  obtain ⟨g,there,mark⟩ := f3IsIdSound yes
  obtain ⟨n,rfl⟩ := fdOfFile known
  have same : m.file (.fd n) = some g := quiet.ages.old (fileOld known) there
  cases Option.some.inj (known.symm.trans same)
  simpa [marked,quiet.nodes] using mark

theorem isNewHereBack {e dir name} {m : Mount Call} {up p} (at_ : m.dirAt dir.fd = .ok (up,p))
    (plain : isNewId m dir name = false) : isNewHere e m dir name = false := by
  obtain ⟨f,known,_⟩ := dirAtFile at_
  simp only [isNewId,known,Bool.or_eq_false_iff] at plain
  simp only [isNewHere,Bool.or_eq_false_iff]
  refine ⟨?_,plain.2⟩
  cases yes : (f3IsId .lookup dir.fd e (openPath .lookupOpen dir.fd name e m).2).1 with
  | false => rfl
  | true =>
    have mark := markedBack (openPathQuiet .lookupOpen dir.fd name e m) known yes
    exact absurd mark (by simp [plain.1])

theorem builtUnbuilt {e} {d : State} {dir name newfd attr c}
    (found : resolve e d.fs d.conf.srcDev dir name = some (newfd,attr))
    (key : c.key = (attr.ino,attr.dev))
    (old : d.inodes.atKey c.key = some c ∨ d.inodes.atKey c.key = none ∧ c.value = {})
    (dead : ¬ c.value.Live) : unbuilt d dir name = true := by
  obtain ⟨up,p,entry,at_,there,_,rfl,_⟩ := resolved found
  have same : c.key = (entry.ino,d.fs.vol.dev) := key
  rw [same] at old
  simp only [unbuilt,at_,there]
  rcases old with here | ⟨absent,_⟩
  · simp [here,dead]
  · simp [absent]

theorem lookupFiled {parent name e} {d : State} {r d'} (filed : Filed d)
    (plain : plainLook d parent name = true) (ok : doLookup parent name e d = some (r,d')) :
    Filed d' := by
  cases looked ok with
  | missed up nothing failed table =>
    unfold Filed
    rw [table]
    exact filed
  | @known dir newfd attr c src up found here live unchanged named table =>
    unfold Filed
    rw [table]
    refine Arena.allModify (fun x mem _ => filed x mem) (fun x mem hit => ?_)
    cases Arena.onlyAt (Arena.memAtAddr (Arena.atKeyMem here).1) mem hit
    obtain ⟨key,isId,filled⟩ := filed c mem
    exact ⟨(unchanged isId).trans key,isId,filled⟩
  | @built dir newfd attr c src conn up found key old entered dead unchanged named table =>
    obtain ⟨_,_,_,at_,_,newest,_⟩ := resolved found
    have oldId : c.value.isId = false := by
      rcases old with here | ⟨_,empty⟩
      · exact (filed c (Arena.atKeyMem here).1).2.1
      · rw [empty]
    have isNew : isNewHere e d.fs dir name = false := by
      refine isNewHereBack at_ ?_
      simpa [plainLook,up,builtUnbuilt found key old dead] using plain
    have neither : (c.value.isId || isNewHere e d.fs dir name) = false := by simp [oldId,isNew]
    unfold Filed
    rw [table]
    refine Arena.allModify (fun x mem apart => filed x (Arena.enterOthers entered rfl x mem apart))
      (fun x mem hit => ?_)
    cases Arena.onlyAt entered mem hit
    have filled : newfd ≠ .closed := by simp [newest]
    exact ⟨unchanged neither,neither,filled⟩

theorem liveStays {parent name e} {d : State} {r d'} (done : Looked parent name e d r d') :
    ∀ c ∈ d.inodes.cells, c.value.Live →
      ∃ v, ⟨c.addr,c.key,v⟩ ∈ d'.inodes.cells ∧ v.fd = c.value.fd := by
  intro x mem alive
  cases done with
  | missed up nothing failed table => exact ⟨x.value,by rwa [table],rfl⟩
  | @known dir newfd attr c src up found here live unchanged named table =>
    rw [table]
    by_cases hit : x.addr = c.addr
    · rw [← hit]
      exact ⟨_,Arena.memModify _ mem,rfl⟩
    · exact ⟨_,Arena.memModifyOther _ mem hit,rfl⟩
  | @built dir newfd attr c src conn up found key old entered dead unchanged named table =>
    have stays : x ∈ (d.inodes.enter c.key {}).1.cells :=
      (Arena.atAddrMem (Arena.atAddrEnter {} (Arena.memAtAddr mem))).1
    have apart : x.addr ≠ c.addr := fun hit => dead (Arena.onlyAt entered stays hit ▸ alive)
    rw [table]
    exact ⟨_,Arena.memModifyOther _ stays apart,rfl⟩

structure Beside (d d' : State) : Prop where
  fs : Grows d.fs d'.fs
  inodes : d'.inodes = d.inodes
  root : d'.root = d.root

instance : IsPreorder State Beside where
  refl d := ⟨refl_of Grows d.fs,rfl,rfl⟩
  trans _ _ _ one two := ⟨trans_of Grows one.fs two.fs,two.inodes.trans one.inodes,
    two.root.trans one.root⟩

theorem Beside.inode {d d' : State} (beside : Beside d d') (ref : Ref) : d'.inode ref = d.inode ref := by
  cases ref with
  | root => simp [State.inode,beside.root]
  | node a => simp [State.inode,beside.inodes]

theorem sysIdBeside {α : Type} (p : Sys Call α) : Prog.Keeps Beside (sys .id p) := by
  intro e d a d' ok
  rw [(sysSome ok).2]
  exact ⟨refl_of Grows d.fs,rfl,rfl⟩

theorem newIdNo {caller parent name e} {d : State} {dir b d'} (up : d.inode parent = some dir)
    (plain : isNewId d.fs dir name = false) (ok : f3IsNewId caller parent name e d = some (b,d')) :
    b = false ∧ Beside d d' := by
  obtain ⟨m,rfl,quiet⟩ := newIdSome ok
  refine ⟨?_,quiet.grows,rfl,rfl⟩
  cases b with
  | false => rfl
  | true => exact absurd (newIdSound up ok) (by simp [plain])

theorem plainBeside {d d' : State} {parent dir name up p} (beside : Beside d d')
    (known : d.inode parent = some dir) (at_ : d.fs.dirAt dir.fd = .ok (up,p))
    (plain : isNewId d.fs dir name = false) :
    d'.inode parent = some dir ∧ isNewId d'.fs dir name = false ∧ plainLook d' parent name = true := by
  have same : d'.inode parent = some dir := (beside.inode parent).trans known
  have still := isNewIdBeside beside.fs at_ plain
  exact ⟨same,still,by simp [plainLook,same,still]⟩

def plainNew (d : State) (parent : Ref) (name : FileName) : Bool := match d.inode parent with
  | none => true
  | some dir => !isNewId d.fs dir name

theorem createFiled {parent name flags e} {d d' : State} (filed : Filed d)
    (plain : plainNew d parent name = true) (ok : sfsCreate parent name flags e d = some ((),d')) :
    Filed d' := by
  obtain ⟨dir,known,ran⟩ := createSome ok
  have isNew : isNewId d.fs dir name = false := by simpa [plainNew,known] using plain
  cases ran with
  | noFs same => exact same ▸ filed
  | noId opened failed same => exact same ▸ filed
  | @chosen fd m idFd n fh d1 r d2 opened openedId chosen lookup finish =>
    have grows := openCreateGrows (.create .fs) dir.fd name flags e d.fs
    rw [opened] at grows
    obtain ⟨up,p,_,at_,_⟩ := openCreateOk opened
    have one : Beside d {d with fs := m, id := n} := ⟨grows,rfl,rfl⟩
    obtain ⟨known1,isNew1,_⟩ := plainBeside one known at_ isNew
    obtain ⟨b,_,asked,outcome⟩ := chooseSome chosen
    obtain ⟨rfl,more⟩ := newIdNo known1 isNew1 asked
    rcases outcome with ⟨_,rfl⟩ | ⟨yes,_⟩ <;> try contradiction
    have two := trans_of Beside one more
    have filed2 := lookupFiled (filedTabled (sameTabled two.inodes) filed)
      (plainBeside two known at_ isNew).2.2 lookup
    cases r with
    | error err => exact progFiled (replyTabled _) finish filed2
    | ok entry => exact progFiled (replyCreateTabled minorRefiled entry fh) finish filed2

theorem mknodIdPlain {parent dir name kind link e} {d : State} {r d'}
    (known : d.inode parent = some dir) (plain : isNewId d.fs dir name = false)
    (ok : mknodId parent dir name kind link e d = some (r,d')) : Beside d d' := by
  cases kind with
  | dir =>
    obtain ⟨r,d1,made,ok⟩ := Prog.bindSome ok
    have one := sysIdBeside _ _ _ _ _ made
    cases r with
    | error err =>
      rw [(Prog.pureSome ok).2]
      exact one
    | ok _ =>
      obtain ⟨b,d2,asked,ok⟩ := Prog.bindSome ok
      have same : isNewId d1.fs dir name = false := by
        rw [(sysSome made).2]
        exact plain
      obtain ⟨rfl,two⟩ := newIdNo ((one.inode parent).trans known) same asked
      cases Option.some.inj ok
      exact trans_of Beside one two
  | lnk => exact sysIdBeside _ _ _ _ _ ok
  | reg =>
    rw [(Prog.pureSome ok).2]
    exact refl_of Beside d
  | special =>
    rw [(Prog.pureSome ok).2]
    exact refl_of Beside d

theorem mknodBeside {parent dir name kind link e} {d : State} {m r d1} (filed : Filed d)
    (known : d.inode parent = some dir) (isNew : isNewId d.fs dir name = false)
    (made : makeAt (.mknod .fs) dir.fd name kind link e d.fs = (.ok (),m))
    (copied : mknodId parent dir name kind link e {d with fs := m} = some (r,d1)) :
    Filed d1 ∧ plainLook d1 parent name = true := by
  have grows := makeAtGrows (.mknod .fs) dir.fd name kind link e d.fs
  rw [made] at grows
  obtain ⟨up,p,_,at_,_⟩ := makeAtOk made
  have one : Beside d {d with fs := m} := ⟨grows,rfl,rfl⟩
  obtain ⟨known1,isNew1,_⟩ := plainBeside one known at_ isNew
  have two := trans_of Beside one (mknodIdPlain known1 isNew1 copied)
  exact ⟨filedTabled (sameTabled two.inodes) filed,(plainBeside two known at_ isNew).2.2⟩

theorem mknodFiled {parent name kind link e} {d d' : State} (filed : Filed d)
    (plain : plainNew d parent name = true)
    (ok : mknodSymlink parent name kind link e d = some ((),d')) : Filed d' := by
  obtain ⟨dir,known,ran⟩ := mknodSome ok
  have isNew : isNewId d.fs dir name = false := by simpa [plainNew,known] using plain
  cases ran with
  | noFs same => exact same ▸ filed
  | noId made failed same => exact same ▸ (mknodBeside filed known isNew made failed).1
  | looked made copied lookup same =>
    obtain ⟨filed1,plain1⟩ := mknodBeside filed known isNew made copied
    have filed2 := lookupFiled filed1 plain1 lookup
    exact same ▸ filed2

theorem unlinkFiled {parent name e} {d d' : State} (filed : Filed d)
    (plain : d.conf.cached = true ∨ plainLook d parent name = true)
    (ok : sfsUnlink parent name e d = some ((),d')) : Filed d' := by
  obtain ⟨dir,d0,first,rest⟩ := Prog.bindSome ok
  obtain ⟨rfl,known,_⟩ := getInodeSome first
  obtain ⟨d1,d2,got,rest⟩ := Prog.bindSome rest
  cases Option.some.inj got
  split at rest
  · exact progFiled ((tabledNames minorRefiled).unlink dir name) rest filed
  · rename_i uncached
    obtain ⟨r,d3,lookup,rest⟩ := Prog.bindSome rest
    have filed3 := lookupFiled filed (plain.resolve_left uncached) lookup
    cases r with
    | error err => exact progFiled (replyTabled _) rest filed3
    | ok entry =>
      exact progFiled (Prog.keepsBind (releaseUnlinkedTabled (fun _ => ⟨rfl,id,fun _ => by simp⟩) entry)
        fun _ => (tabledNames minorRefiled).unlink dir name) rest filed3

theorem unbuiltStays {d d' : State} {dir dir' : Inode} {name up p} (quiet : Quiet d.fs d'.fs)
    (stays : ∀ c ∈ d.inodes.cells, c.value.Live →
      ∃ v, ⟨c.addr,c.key,v⟩ ∈ d'.inodes.cells ∧ v.fd = c.value.fd)
    (at_ : d.fs.dirAt dir.fd = .ok (up,p)) (fd : dir'.fd = dir.fd)
    (built : unbuilt d dir name = false) : unbuilt d' dir' name = false := by
  cases now : d'.fs.dirAt dir'.fd with
  | error err => simp [unbuilt,now]
  | ok there =>
    rw [fd] at now
    cases dirAtGrows quiet.grows at_ now
    simp only [unbuilt,at_] at built
    simp only [unbuilt,fd,now,quiet.tree,quiet.dev]
    cases found : d.fs.vol.tree.find (p ++ [name]) with
    | none => rfl
    | some entry =>
      cases here : d.inodes.atKey (entry.ino,d.fs.vol.dev) with
      | none => simp [found,here] at built
      | some c =>
        have live : c.value.Live := by simpa [found,here] using built
        obtain ⟨mem,key⟩ := Arena.atKeyMem here
        obtain ⟨v,still,same⟩ := stays c mem live
        have after := Arena.memAtKey still
        simp only [key] at after
        have alive : v.Live := by simpa [Inode.Live,same] using live
        simp [after,alive]

theorem plainStays {parent name next e} {d : State} {entry d'}
    (ok : doLookup parent name e d = some (.ok entry,d')) (plain : plainLook d parent next = true) :
    plainLook d' parent next = true := by
  have done := looked ok
  obtain ⟨dir,up,p,known,at_⟩ : ∃ dir up p, d.inode parent = some dir ∧ d.fs.dirAt dir.fd = .ok (up,p) := by
    cases done with
    | missed _ _ failed _ => simp at failed
    | known up found _ _ _ _ _ =>
      obtain ⟨e,p,_,at_,_⟩ := resolved found
      exact ⟨_,e,p,up,at_⟩
    | built up found _ _ _ _ _ _ _ =>
      obtain ⟨e,p,_,at_,_⟩ := resolved found
      exact ⟨_,e,p,up,at_⟩
  have looks := doLookupLooks parent name _ _ _ _ ok
  have quiet := looks.fs
  obtain ⟨dir',known',fd⟩ : ∃ dir', d'.inode parent = some dir' ∧ dir'.fd = dir.fd := by
    cases parent with
    | root => exact ⟨d'.root,rfl,by rw [looks.root,Option.some.inj known]⟩
    | node a =>
      obtain ⟨c,here,rfl⟩ := Option.map_eq_some_iff.mp known
      obtain ⟨mem,rfl⟩ := Arena.atAddrMem here
      obtain ⟨v,stays,same⟩ := liveStays done c mem (dirAtLive at_)
      exact ⟨v,inodeNode (Arena.memAtAddr stays),same⟩
  simp only [plainLook,known,known',Bool.not_eq_true',Bool.and_eq_false_iff] at plain ⊢
  rcases plain with built | isNew
  · exact Or.inl (unbuiltStays quiet (liveStays done) at_ fd built)
  · have still := isNewIdBeside quiet.grows at_ isNew
    exact Or.inr (by simpa [isNewId,fd] using still)

theorem readdirFiled {ino e} {d : State} {stream sofar d'} (filed : Filed d)
    (plain : ∀ x ∈ stream, plainLook d ino x.name = true)
    (ok : readdirLoop ino stream sofar e d = some ((),d')) : Filed d' := by
  induction stream generalizing d sofar with
  | nil => exact progFiled (replyTabled _) ok filed
  | cons x rest ih =>
    obtain ⟨r,d1,lookup,ok⟩ := Prog.bindSome ok
    have filed1 := lookupFiled filed (plain x List.mem_cons_self) lookup
    cases r with
    | error err => exact progFiled (replyTabled _) ok filed1
    | ok entry =>
      simp only at ok
      split at ok
      · exact ih filed1 (fun y mem => plainStays lookup (plain y (List.mem_cons_of_mem x mem))) ok
      · exact progFiled (Prog.keepsBind (forgetEntryTabled minorRefiled entry) fun _ => replyTabled _)
          ok filed1

/- No step builds an inode for an ID name: the names that are looked up and would get a
new inode, and those that are created, are none by f3_is_new_id. -/
def Plain (d : State) : Step → Prop
  | .request (.lookup parent name) _ => plainLook d parent name = true
  | .request (.unlink parent name) _ => d.conf.cached = true ∨ plainLook d parent name = true
  | .request (.readdirplus ino stream) _ => ∀ x ∈ stream, plainLook d ino x.name = true
  | .request (.create parent name _) _ => plainNew d parent name = true
  | .request (.mknod parent name _ _) _ => plainNew d parent name = true
  | _ => True

theorem handleFiled {req e} {d d' : State} (filed : Filed d) (plain : Plain d (.request req e))
    (ok : handle req e d = some ((),d')) : Filed d' := by
  cases req with
  | lookup parent name =>
    obtain ⟨r,d1,lookup,ok⟩ := Prog.bindSome ok
    have filed1 := lookupFiled filed plain lookup
    revert ok
    split <;> exact fun ok => progFiled (replyTabled _) ok filed1
  | mknod parent name kind link => exact mknodFiled filed plain ok
  | link ino parent name => exact progFiled ((tabledNames minorRefiled).link ino parent name) ok filed
  | create parent name flags => exact createFiled filed plain ok
  | rmdir parent name => exact progFiled ((tabledNames minorRefiled).rmdir parent name) ok filed
  | rename parent name newparent newname flags =>
    exact progFiled ((tabledNames minorRefiled).rename parent name newparent newname flags) ok filed
  | unlink parent name => exact unlinkFiled filed plain ok
  | forget ino n =>
    exact progFiled (Prog.keepsBind (forgetOneTabled minorRefiled ino n) fun _ => replyTabled _) ok filed
  | forgetMulti forgets =>
    exact progFiled (Prog.keepsBind (forgetAllTabled minorRefiled forgets) fun _ => replyTabled _)
      ok filed
  | readdirplus ino stream =>
    obtain ⟨i,d1,first,rest⟩ := Prog.bindSome ok
    obtain ⟨rfl,_⟩ := getInodeSome first
    exact readdirFiled filed plain rest
  | openFile ino flags => exact progFiled (openTabled minorRefiled ino flags) ok filed
  | release ino fh => exact progFiled (releaseTabled minorRefiled ino fh) ok filed
  | writeBuf ino fh off data => exact progFiled ((tabledNames minorRefiled).write ino fh off data) ok filed
  | getattr ino => exact progFiled ((tabledNames minorRefiled).getattr ino) ok filed
  | setattr ino size fi => exact progFiled ((tabledNames minorRefiled).setattr ino size fi) ok filed
  | setxattr ino name value flag => exact progFiled (setxattrTabled minorRefiled ino name value flag) ok filed
  | removexattr ino name => exact progFiled (removexattrTabled (fun _ => ⟨rfl,fun _ => rfl,id⟩) ino name) ok filed

theorem stepFiled {d d' : State} {s} (filed : Filed d) (plain : Plain d s) (ok : step d s = some d') :
    Filed d' := by
  cases s with
  | request req e =>
    obtain ⟨⟨_,d1⟩,done,rfl⟩ := Option.map_eq_some_iff.mp ok
    have plain1 : Plain {d with replies := []} (.request req e) := by cases req <;> exact plain
    exact @handleFiled req e {d with replies := []} d1 filed plain1 done
  | restart =>
    cases Option.some.inj ok
    intro c mem
    contradiction

theorem forgetExactly {a} (e : Env Call) {d : State} {c} (here : d.inodes.atAddr a = some c)
    (filed : FiledCell c) : ∃ d', forgetOne (.node a) c.value.nlookup e d = some ((),d') ∧
      d'.inodes.cells = d.inodes.cells.filter (fun x => x.addr ≠ a) := by
  obtain ⟨key,_,filled⟩ := filed
  let d1 := d.setInode (.node a) (fun i => {i with nlookup := i.nlookup - c.value.nlookup})
  have at1 : d1.inodes.atKey c.value.src = some
      {c with value := {c.value with nlookup := c.value.nlookup - c.value.nlookup}} := by
    rw [key]
    exact Arena.atKeyModify here
  let d2 : State :=
    {d1 with fs := (close c.value.fd e d1.fs).2, inodes := d1.inodes.erase c.value.src}
  have erased : eraseInode c.value.src e d1 = some ((),d2) := by
    unfold eraseInode
    rw [Prog.bindEq (show Prog.get e d1 = some (d1,d1) from rfl)]
    simp only [at1]
    rfl
  refine ⟨d2,?_,?_⟩
  · unfold forgetOne
    rw [Prog.bindEq (getInodeEq e (inodeNode here) (fun _ => filled)),if_neg (Nat.lt_irrefl _),
      Prog.bindEq (show setInode (.node a) _ e d = some ((),d1) from rfl),Prog.onlyIf,
      if_pos (Nat.sub_self _)]
    exact erased
  · show (d1.inodes.erase c.value.src).cells = _
    rw [key]
    exact Arena.eraseModified here

theorem filedUnderSrc {opts fs id steps} {d : State} (meets : Meets step Plain (boot opts fs id) steps)
    (ok : run step (boot opts fs id) steps = some d) :
    (∀ c ∈ d.inodes.cells, c.value.src = c.key) ∧
    ∀ a c e, d.inodes.atAddr a = some c → ∃ d',
      forgetOne (.node a) c.value.nlookup e d = some ((),d') ∧
      d'.inodes.cells = d.inodes.cells.filter (fun x => x.addr ≠ a) := by
  have empty : Filed (boot opts fs id) := by
    intro c mem
    contradiction
  have filed : Filed d := Lib.Run.invariant Plain Filed stepFiled empty meets ok
  refine ⟨fun c mem => (filed c mem).1,?_⟩
  intro a c e here
  exact forgetExactly e here (filed c (Arena.atAddrMem here).1)

instance (d s) : Decidable (Plain d s) := by
  unfold Plain
  rcases s with ⟨req,_⟩ | _
  · rcases req <;> infer_instance
  · infer_instance

def plainRun : List Step :=
  [.request (.mknod .root nameB .dir []) (calm 10),
   .request (.create (.node 0) nameA forWriting) (calm 11),
   .request (.release (.node 1) ⟨.fs,.fd 3⟩) (calm 11),
   .request (.readdirplus (.node 0) [⟨nameA,true,calm 11⟩]) (calm 11)]

theorem plainFiled : ∃ d, run step (mounted false) plainRun = some d ∧
    d.inodes.cells.map Cell.key = [(11,1),(10,1)] ∧ (∀ c ∈ d.inodes.cells, c.value.src = c.key) ∧
    ∃ d', forgetOne (.node 1) 2 (calm 11) d = some ((),d') ∧
      d'.inodes.cells = d.inodes.cells.filter (fun x => x.addr ≠ 1) := by
  have keys : (run step (mounted false) plainRun).map (fun d => d.inodes.cells.map Cell.key) =
      some [(11,1),(10,1)] := by
    decide +kernel
  have count : (run step (mounted false) plainRun).bind (fun d =>
      (d.inodes.atAddr 1).map fun c => c.value.nlookup) = some 2 := by
    decide +kernel
  obtain ⟨d,ok,table⟩ := Option.map_eq_some_iff.mp keys
  rw [ok] at count
  obtain ⟨c,here,twice⟩ := Option.map_eq_some_iff.mp count
  obtain ⟨filed,forget⟩ := @filedUnderSrc _ _ _ plainRun d (by decide +kernel) ok
  have last := forget 1 c (calm 11) here
  rw [twice] at last
  exact ⟨d,ok,table,filed,last⟩

theorem misfiledId :
    (run step (mounted true) [.request (.create .root nameId forWriting) (calm 10)]).map (fun d =>
      d.inodes.cells.map fun c => (c.key,c.value.src,c.value.nlookup)) = some [((10,1),(10,7),1)] ∧
    (run step (mounted true) [.request (.create .root nameId forWriting) (calm 10),
      .request (.forget (.node 0) 1) (calm 10)]).map (fun d =>
        d.inodes.cells.map fun c => (c.key,c.value.src,c.value.nlookup)) =
      some [((10,1),(10,7),0)] := by
  decide +kernel

end F3.Driver.Keys
