import F3.DriverAnswers
import F3.DriverKeys
import F3.DriverPaths
import F3.DriverHandles

/-! The short copies of a consumer. A file that another node produced is fetched when its
inode has needs_download, which do_lookup gives to an inode whose ID copy it makes. -/
namespace F3.Driver.Fetch
open Lib (Bytes Arena Cell Prog Act)
open Lib.Posix
open Lib.Run (run Meets)
open Handles (Spares madeSpares lookupSpares IdSame sysFsSame setInodeSame replySame startSame clearedContent
  openFlagsTrunc reopenHeld)

def published (v : Volume Call) (ino : Ino) : Nat := match (v.nodes ino).xattr f3Size with
  | some value => if value.length ≤ 23 then sizeT (strtol (value.takeWhile (· ≠ 0))) else 0
  | none => 0

-- An ID regular file whose server is another node.
def Foreign (d : State) (ino : Ino) : Prop :=
  marked d.fs.vol ino = true ∧ (d.fs.vol.nodes ino).xattr f3Servers ≠ some d.conf.address ∧
    ∃ x ∈ d.fs.vol.tree.entries, x.2 = ⟨ino,.reg⟩
instance (d ino) : Decidable (Foreign d ino) := by unfold Foreign; infer_instance

def size (m : Mount Call) (ino : Ino) : Nat := (m.vol.nodes ino).content.length

structure CellOk (d : State) (c : Cell SrcId Inode) : Prop where
  live : c.value.Live
  isId : Foreign d c.key.1 → c.value.isId = true
  copy : c.value.idFd = .closed ∨ ∃ g p, d.id.file c.value.idFd = some g ∧
    d.id.vol.tree.find p = some g.entry ∧ (Foreign d c.key.1 →
      size d.id g.entry.ino < published d.fs.vol c.key.1 → c.value.needsDownload = true)

def Fetching (d : State) : Prop := ∀ c ∈ d.inodes.cells, CellOk d c

def SameCopy (i j : Inode) : Prop :=
  (i.Live → j.Live) ∧ j.isId = i.isId ∧ j.idFd = i.idFd ∧ j.needsDownload = i.needsDownload

instance : IsPreorder Inode SameCopy where
  refl _ := ⟨id,rfl,rfl,rfl⟩
  trans _ _ _ one two := ⟨two.1 ∘ one.1,two.2.1.trans one.2.1,two.2.2.1.trans one.2.2.1,
    two.2.2.2.trans one.2.2.2⟩

theorem minorSameCopy : Minor SameCopy := fun _ _ _ _ _ => ⟨id,rfl,rfl,rfl⟩

structure SameMarks (d d' : State) : Prop where
  tree : d'.fs.vol.tree = d.fs.vol.tree
  xattr : ∀ ino, (d'.fs.vol.nodes ino).xattr = (d.fs.vol.nodes ino).xattr
  conf : d'.conf = d.conf

theorem namedMarks {d d' : State} (named : ∀ attr, Named attr d d') : SameMarks d d' :=
  ⟨(named []).fs.tree,fun ino => funext fun attr => (named attr).fs.xattr ino,(named []).conf⟩

theorem looksMarks {d d' : State} (looks : Looks d d') : SameMarks d d' :=
  ⟨looks.fs.tree,fun ino => by rw [looks.fs.nodes],looks.conf⟩

theorem SameMarks.published {d d' : State} (same : SameMarks d d') (ino : Ino) :
    Fetch.published d'.fs.vol ino = Fetch.published d.fs.vol ino := by
  simp only [Fetch.published,same.xattr]

theorem SameMarks.foreign {d d' : State} (same : SameMarks d d') (ino : Ino) :
    Foreign d' ino ↔ Foreign d ino := by
  simp only [Foreign,marked,same.xattr,same.tree,same.conf]

structure Growing (cut : Ino → Prop) (m m' : Mount Call) : Prop where
  held : Held m.next m m'
  kept : ∀ {p entry}, m.vol.tree.find p = some entry → m'.vol.tree.find p = some entry
  sizes : ∀ {p entry}, m.vol.tree.find p = some entry →
    cut entry.ino ∨ size m entry.ino ≤ size m' entry.ino

section Cells
variable {cut : Ino → Prop} {e : Env Call} {d d' : State}

theorem cellGrowing {c c' : Cell SrcId Inode} (marks : SameMarks d d') (id : Growing cut d.id d'.id)
    (ok : CellOk d c) (key : c'.key = c.key) (same : SameCopy c.value c'.value)
    (spared : ∀ g, d.id.file c.value.idFd = some g → cut g.entry.ino → c.value.needsDownload = true) :
    CellOk d' c' := by
  obtain ⟨live,isId,idFd,needs⟩ := same
  refine ⟨live ok.live,?_,?_⟩
  · rw [key,marks.foreign,isId]
    exact ok.isId
  rw [key,idFd,needs,marks.published,marks.foreign]
  rcases ok.copy with closed | ⟨g,p,there,linked,short⟩
  · exact .inl closed
  · refine .inr ⟨g,p,heldFile id.held there,id.kept linked,fun foreign less => ?_⟩
    rcases id.sizes linked with hit | grown
    · exact spared g there hit
    · exact short foreign (Nat.lt_of_le_of_lt grown less)

theorem fetchingGrowing (fetching : Fetching d) (marks : SameMarks d d') (id : Growing cut d.id d'.id)
    (table : Tabled SameCopy d d') (spared : ∀ c ∈ d.inodes.cells, ∀ g,
      d.id.file c.value.idFd = some g → cut g.entry.ino → c.value.needsDownload = true) :
    Fetching d' := by
  intro c mem
  obtain ⟨b,old,key,same⟩ := table c mem
  exact cellGrowing marks id (fetching b old) key.symm same (spared b old)

end Cells

theorem copySlot (idDir : Slot) (name : FileName) (kind : Kind) (e : Env Call) (m : Mount Call) :
    (openIdCopy idDir name kind e m).1.1 = .closed ∨
    ∃ g p, (openIdCopy idDir name kind e m).2.file (openIdCopy idDir name kind e m).1.1 = some g ∧
      (openIdCopy idDir name kind e m).2.vol.tree.find p = some g.entry ∧
      ((openIdCopy idDir name kind e m).1.2 = false → kind ≠ .dir → ∃ up q,
        m.dirAt idDir = .ok (up,q) ∧ m.vol.tree.find (q ++ [name]) = some g.entry) := by
  have again : ∀ {n : Mount Call} {flag : Bool}, (flag = false → kind = .dir) →
      slotOf (openPath .lookupReopen idDir name e n).1 = .closed ∨
      ∃ g p, (openPath .lookupReopen idDir name e n).2.file
          (slotOf (openPath .lookupReopen idDir name e n).1) = some g ∧
        (openPath .lookupReopen idDir name e n).2.vol.tree.find p = some g.entry ∧
        (flag = false → kind ≠ .dir → ∃ up q,
          m.dirAt idDir = .ok (up,q) ∧ m.vol.tree.find (q ++ [name]) = some g.entry) := by
    intro n flag new
    rcases openPathCases .lookupReopen idDir name e n with ⟨err,same⟩ | ⟨up,q,entry,_,found,same⟩ <;>
      rw [same]
    · exact .inl rfl
    · exact .inr ⟨_,q ++ [name],fileInstall _ _,found,fun old file => absurd (new old) file⟩
  simp only [openIdCopy,bind]
  rcases openPathCases .lookupOpenId idDir name e m with ⟨err,same⟩ | ⟨up,q,entry,at_,found,same⟩ <;>
    rw [same]
  · cases err with
    | enoent =>
      unfold makeIdCopy
      split
      · rename_i dir
        exact again fun _ => dir
      · exact @again _ true fun wrong => by cases wrong
    | _ => exact .inl rfl
  · exact .inr ⟨_,q ++ [name],fileInstall _ _,found,fun _ _ => ⟨up,q,at_,found⟩⟩

def Whole (m : Mount Call) (idDir : Slot) (name : FileName) (bytes : Nat) : Prop :=
  match m.dirAt idDir with
  | .error _ => True
  | .ok (_,q) => match m.vol.tree.find (q ++ [name]) with
      | none => True
      | some entry => bytes ≤ size m entry.ino

def Fresh (e : Env Call) (d : State) (dir : Inode) (name : FileName) : Prop :=
  Keys.unbuilt d dir name = true → match resolve e d.fs d.conf.srcDev dir name with
    | none => True
    | some (_,attr) => Foreign d attr.ino → isNewHere e d.fs dir name = true ∧
        Whole d.id dir.idFd name (published d.fs.vol attr.ino)

section Lookup
variable {e : Env Call} {d d' : State} {parent : Ref} {name : FileName} {r : Except Errno EntryParam}

theorem lookupGrowing (ok : doLookup parent name e d = some (r,d')) :
    Growing (fun _ => False) d.id d'.id :=
  ⟨lookupHeldId ok,fun found => (lookupSpares ok).kept found,
    fun found => .inr (Nat.le_of_eq (by rw [size,size,(lookupSpares ok).content found]))⟩

theorem foreignKind {ino : Ino} {p} {entry : Entry} (foreign : Foreign d ino)
    (found : d.fs.vol.tree.find p = some entry) (same : entry.ino = ino) : entry.kind = .reg := by
  obtain ⟨_,_,x,mem,isReg⟩ := foreign
  have other := Lib.Tree.foundMem.mpr (show (x.1,x.2) ∈ d.fs.vol.tree.entries from mem)
  rw [d.fs.vol.distinct _ _ _ _ found other (by rw [same,isReg]),isReg]

theorem lookupFetching (fetching : Fetching d)
    (fresh : ∀ dir, d.inode parent = some dir → Fresh e d dir name)
    (ok : doLookup parent name e d = some (r,d')) : Fetching d' := by
  have marks := looksMarks (doLookupLooks parent name e d r d' ok)
  have growing := lookupGrowing ok
  have others : ∀ c ∈ d.inodes.cells, CellOk d' c := fun c mem =>
    cellGrowing marks growing (fetching c mem) rfl (refl_of SameCopy c.value) fun _ _ hit => hit.elim
  cases looked ok with
  | missed up nothing failed table =>
    rw [Fetching,table]
    exact others
  | known up found here live plain named table =>
    rw [Fetching,table]
    refine Arena.allModify (fun c mem _ => others c mem) fun c mem _ => ?_
    exact cellGrowing marks growing (fetching c mem) rfl ⟨id,rfl,rfl,rfl⟩ fun _ _ hit => hit.elim
  | @built dir newfd attr c src conn up found key old entered dead plain named table =>
    obtain ⟨upEntry,p,entry,at_,there,newest,isAttr,dev⟩ := resolved found
    have empty := (old.resolve_left fun here => dead (fetching c (Arena.atKeyMem here).1).live).2
    have told := lookupTold up ok
    have absent := (old.resolve_left fun here => dead (fetching c (Arena.atKeyMem here).1).live).1
    simp only [Told,found,slotted,← key,absent,Option.map_none,Option.getD_none] at told
    rw [if_neg (fun live => live.1 rfl)] at told
    have guard := fresh dir up (Keys.builtUnbuilt found key old dead)
    simp only [found] at guard
    rw [Fetching,table]
    refine Arena.allModify (fun b mem other => others b (Arena.enterOthers entered rfl b mem other))
      fun b mem same => ?_
    cases Arena.onlyAt entered mem same
    have number : c.key.1 = attr.ino := by rw [key]
    refine ⟨by simp [Inode.Live,Inode.built,Inode.fill,newest],?_,?_⟩
    · intro foreign
      rw [number,marks.foreign] at foreign
      simp [Inode.built,(guard foreign).1]
    · rcases copySlot dir.idFd name attr.kind e d.id with closed | ⟨g,q,file,linked,before⟩
      · exact .inl closed
      · refine .inr ⟨g,q,by rw [told.1]; exact file,by rw [told.1]; exact linked,fun foreign less => ?_⟩
        rw [number,marks.foreign] at foreign
        rw [number,marks.published] at less
        obtain ⟨isNew,whole⟩ := guard foreign
        cases flag : (openIdCopy dir.idFd name attr.kind e d.id).1.2 with
        | true => simp [Inode.built,flag,isNew]
        | false =>
          have reg : attr.kind = .reg := by
            rw [isAttr] at foreign ⊢
            exact foreignKind foreign there rfl
          obtain ⟨idUp,q',atId,foundId⟩ := before flag (by rw [reg]; decide)
          simp only [Whole,atId,foundId] at whole
          have same : size d'.id g.entry.ino = size d.id g.entry.ino := by
            rw [size,(lookupSpares ok).content foundId,size]
          omega

theorem statOpen {c : Call} {slot : Slot} {m : Mount Call} {st} (stat : (fstat c slot e m).1 = .ok st) :
    slot ≠ .closed := by
  rintro rfl
  obtain ⟨f,there⟩ := statFile stat
  cases there

theorem answeredStat {m : Mount Call} {idFd : Slot} {x} (answered : Answered e m true idFd (.ok x)) :
    idFd ≠ .closed := by
  rcases answered with ⟨_,err,_,wrong⟩ | ⟨stated,_⟩
  · cases wrong
  · obtain ⟨st,stat⟩ := stated rfl
    exact statOpen stat

theorem cellFetched {c : Cell SrcId Inode} (ok : CellOk d c) (foreign : Foreign d c.key.1)
    (opened : c.value.idFd ≠ .closed) : ∃ g, d.id.file c.value.idFd = some g ∧
      (size d.id g.entry.ino < published d.fs.vol c.key.1 → c.value.needsDownload = true) := by
  obtain ⟨g,_,there,_,short⟩ := ok.copy.resolve_left opened
  exact ⟨g,there,short foreign⟩

theorem lookupFetched {x : EntryParam} {dir : Inode} {up p entry} (fetching : Fetching d)
    (fresh : ∀ dir, d.inode parent = some dir → Fresh e d dir name)
    (ok : doLookup parent name e d = some (.ok x,d')) (known : d.inode parent = some dir)
    (at_ : d.fs.dirAt dir.fd = .ok (up,p)) (found : d.fs.vol.tree.find (p ++ [name]) = some entry)
    (foreign : Foreign d entry.ino) : ∃ a i g, x.ino = some a ∧ d'.inode (.node a) = some i ∧
      d'.id.file i.idFd = some g ∧
      (size d'.id g.entry.ino < published d'.fs.vol entry.ino → i.needsDownload = true) := by
  have marks := looksMarks (doLookupLooks parent name e d _ d' ok)
  have after := lookupFetching fetching fresh ok
  have told := lookupTold known ok
  have ends : ∀ a c, d'.inodes.atAddr a = some c → c.key.1 = entry.ino → x.ino = some a →
      (c.value.isId = true → c.value.idFd ≠ .closed) → ∃ a i g, x.ino = some a ∧
        d'.inode (.node a) = some i ∧ d'.id.file i.idFd = some g ∧
        (size d'.id g.entry.ino < published d'.fs.vol entry.ino → i.needsDownload = true) := by
    intro a c here number named opened
    have cell := after c (Arena.atAddrMem here).1
    have theirs : Foreign d' c.key.1 := by
      rw [number,marks.foreign]
      exact foreign
    obtain ⟨g,file,short⟩ := cellFetched cell theirs (opened (cell.isId theirs))
    exact ⟨a,c.value,g,named,inodeNode here,file,number ▸ short⟩
  cases foundAs known at_ found ok with
  | @known c src resolves here live named table =>
    obtain ⟨mem,key⟩ := Arena.atKeyMem here
    simp only [Told,resolves,slotted,Volume.stat,here,Option.map_some,Option.getD_some,if_pos live] at told
    have now := congrArg (fun t => t.atAddr c.addr) table
    rw [Arena.atAddrModify (Arena.memAtAddr mem)] at now
    refine ends _ _ now (by rw [key]) named fun isId => ?_
    have isId : c.value.isId = true := isId
    rw [isId] at told
    exact answeredStat told.2
  | @built c src conn resolves key old entered dead named table =>
    obtain ⟨absent,empty⟩ := old.resolve_left fun here => dead (fetching c (Arena.atKeyMem here).1).live
    simp only [Told,resolves,slotted,Volume.stat,← key,absent,Option.map_none,Option.getD_none] at told
    rw [if_neg (fun live => live.1 rfl)] at told
    have now := congrArg (fun t => t.atAddr c.addr) table
    rw [Arena.atAddrModify entered] at now
    refine ends _ _ now (by rw [key]) named fun isId => ?_
    have isId : (c.value.isId || isNewHere e d.fs dir name) = true := isId
    rw [empty] at isId
    rw [isId] at told
    exact answeredStat told.2

end Lookup

section Events
variable {e : Env Call} {d d' : State}

theorem forgetOneSame (ino : Ref) (n : Nat) : Prog.Keeps IdSame (forgetOne ino n) :=
  forgetKeeps (setInodeSame ino _) (fun _ => sysFsSame _) fun _ _ => rfl

theorem forgetAllSame (forgets : List (Ref × Nat)) : Prog.Keeps IdSame (forgetAll forgets) :=
  forgetAllKeeps forgetOneSame forgets

theorem growingSame {m m' : Mount Call} (same : m' = m) : Growing (fun _ => False) m m' := by
  rw [same]
  exact ⟨refl_of (Held m.next) m,id,fun _ => .inr (Nat.le_refl _)⟩

theorem growingWeaken {cut cut' : Ino → Prop} {m m' : Mount Call} (growing : Growing cut m m')
    (more : ∀ n, cut n → cut' n) : Growing cut' m m' :=
  ⟨growing.held,growing.kept,fun found => (growing.sizes found).imp_left (more _)⟩

theorem forgetsFetching {forgets : List (Ref × Nat)} (fetching : Fetching d)
    (ok : sfsForgetMulti forgets e d = some ((),d')) : Fetching d' := by
  have named : ∀ attr, Named attr d d' := fun attr =>
    Prog.keepsBind (forgetAllNamed forgets) (fun _ => replyNamed _) e d _ d' ok
  have same : IdSame d d' :=
    Prog.keepsBind (forgetAllSame forgets) (fun _ => replySame _) e d _ d' ok
  exact fetchingGrowing fetching (namedMarks named) (growingSame same)
    (Prog.keepsBind (forgetAllTabled minorSameCopy forgets) (fun _ => replyTabled _) e d _ d' ok)
    fun _ _ _ _ hit => hit.elim

theorem reopenGrowing (c : Call) (slot : Slot) (flags : Flags) (m : Mount Call) :
    Growing (fun n => flags.trunc = true ∧ ∃ f ∈ m.file slot, f.entry.ino = n) m
      (reopen c slot flags e m).2 := by
  rcases reopenCases c slot flags e m with ⟨err,same⟩ | ⟨f,there,same⟩ <;> rw [same]
  · exact ⟨refl_of (Held m.next) m,id,fun _ => .inr (Nat.le_refl _)⟩
  · obtain ⟨opened,next⟩ := clearedFiles flags m f.entry
    refine ⟨trans_of (Held m.next) (sameHeld opened next) (installHeld (Nat.le_of_eq next.symm) _),
      fun found => ?_,fun {p entry} found => ?_⟩
    · exact (clearedAlike flags m f.entry []).tree ▸ found
    · by_cases hit : flags.trunc = true ∧ f.entry.ino = entry.ino
      · exact .inl ⟨hit.1,f,there,hit.2⟩
      · have kept := @clearedContent flags m f.entry entry.ino fun _ trunc same => hit ⟨trunc,same⟩
        exact .inr (Nat.le_of_eq (congrArg List.length kept.symm))

def cutBy (d : State) (ino : Ref) (flags : Flags) (n : Ino) : Prop :=
  flags.trunc = true ∧ ∃ i ∈ d.inode ino, i.isId = true ∧ ∃ f ∈ d.id.file i.idFd, f.entry.ino = n
instance (d ino flags n) : Decidable (cutBy d ino flags n) := by unfold cutBy; infer_instance

theorem openGrowing {ino : Ref} {flags : Flags} (ok : sfsOpen ino flags e d = some ((),d')) :
    Growing (cutBy d ino flags) d.id d'.id := by
  obtain ⟨i,u,first,body⟩ := Prog.bindSome ok
  obtain ⟨rfl,known,_⟩ := getInodeSome first
  obtain ⟨_,_,got,body⟩ := Prog.bindSome body
  cases Option.some.inj got
  obtain ⟨_,w,started,rest⟩ := Prog.bindSome body
  have before : IdSame u w := Prog.keepsOnlyIf (startSame ino i) e u _ w started
  obtain ⟨r,x,opened,tail⟩ := Prog.bindSome rest
  have after : IdSame x d' := by
    cases r with
    | error err => exact replySame _ e x _ d' tail
    | ok fd => exact Prog.keepsBind (setInodeSame ino _) (fun _ => replySame _) e x _ d' tail
  obtain ⟨_,isX⟩ := sysSome opened
  have ends : d'.id = (w.setMount i.side (reopen .openHandle i.slot (openFlags u.conf.cached flags) e
      (w.mount i.side)).2).id := after.trans (congrArg State.id isX)
  rw [ends]
  cases which : i.isId with
  | false =>
    simp only [Inode.side,which]
    exact growingWeaken (growingSame before) fun _ hit => hit.elim
  | true =>
    simp only [Inode.side,Inode.slot,which,if_true,State.setMount,State.mount]
    rw [before]
    refine growingWeaken (reopenGrowing _ _ _ u.id) fun n hit => ?_
    exact ⟨openFlagsTrunc u.conf.cached flags ▸ hit.1,i,known,which,hit.2⟩

theorem openFetching {ino : Ref} {flags : Flags} (fetching : Fetching d)
    (spared : ∀ c ∈ d.inodes.cells, ∀ g ∈ d.id.file c.value.idFd,
      cutBy d ino flags g.entry.ino → c.value.needsDownload = true)
    (ok : sfsOpen ino flags e d = some ((),d')) : Fetching d' :=
  fetchingGrowing fetching (namedMarks fun _ => openNamed ino flags e d _ d' ok) (openGrowing ok)
    (openTabled minorSameCopy ino flags e d _ d' ok) spared

/- The client appends what it receives to the file under the path in the ID tree, which it
makes when there is none. -/
def clientWrites (m : Mount Call) (dir : List FileName) (name : FileName) (ino : Ino) (data : Bytes) :
    Mount Call :=
  match m.vol.tree.find (dir ++ [name]) with
  | some entry =>
      if entry.kind = .reg then m.setContent entry.ino ((m.vol.nodes entry.ino).content ++ data) else m
  | none => match m.vol.make .connect ino .reg data dir name with
      | .ok v => {m with vol := v}
      | .error _ => m

theorem clientGrowing (m : Mount Call) (dir : List FileName) (name : FileName) (ino : Ino) (data : Bytes) :
    Growing (fun _ => False) m (clientWrites m dir name ino data) := by
  unfold clientWrites
  split
  · split
    · rename_i hit _ _
      refine ⟨sameHeld rfl rfl,id,fun {p entry} _ => .inr ?_⟩
      by_cases same : entry.ino = hit.ino <;> simp [size,Mount.setContent,Volume.setNode,same]
    · exact growingSame rfl
  · split
    · rename_i made
      refine ⟨sameHeld rfl rfl,fun found => (madeSpares made).kept found,fun {p entry} found => .inr ?_⟩
      exact Nat.le_of_eq (congrArg List.length ((madeSpares made).content found).symm)
    · exact growingSame rfl

inductive Event where
  | request (req : Req) (env : Env Call)
  | restart
  | fetch (dir : List FileName) (name : FileName) (ino : Ino) (data : Bytes)
  | remote (v : Volume Call)

-- `fetch` is a write of the client, `remote` what the other nodes make of the shared tree.
def step (d : State) : Event → Option State
  | .request req env => Driver.step d (.request req env)
  | .restart => Driver.step d .restart
  | .fetch dir name ino data => some {d with id := clientWrites d.id dir name ino data}
  | .remote v => some {d with fs := {d.fs with vol := v}}

/- What the other nodes do spares the inodes in use: a file that is foreign now is one of an
ID inode, and its copy is not too short for it unless it will be fetched. -/
def Published (d : State) (c : Cell SrcId Inode) : Prop :=
  Foreign d c.key.1 → c.value.isId = true ∧ (c.value.needsDownload = true ∨
    ∀ g ∈ d.id.file c.value.idFd, published d.fs.vol c.key.1 ≤ size d.id g.entry.ino)

def Consumes (d : State) (e : Env Call) : Req → Prop
  | .lookup parent name => ∀ dir ∈ d.inode parent, Fresh e d dir name
  | .openFile ino flags => ∀ c ∈ d.inodes.cells, ∀ g ∈ d.id.file c.value.idFd,
      cutBy d ino flags g.entry.ino → c.value.needsDownload = true
  | .forget _ _ => True
  | .forgetMulti _ => True
  | _ => False

def Careful (d : State) : Event → Prop
  | .request req e => Faithful d req ∧ Consumes d e req
  | .restart => True
  | .fetch _ _ _ _ => True
  | .remote v => ∀ c ∈ d.inodes.cells, Published {d with fs := {d.fs with vol := v}} c

theorem fetchingAsked (replies : List Reply) (fetching : Fetching d) :
    Fetching {d with replies := replies} :=
  fun c mem => ⟨(fetching c mem).live,(fetching c mem).isId,(fetching c mem).copy⟩

theorem requestFetching {req : Req} (fetching : Fetching d) (careful : Consumes d e req)
    (ok : handle req e d = some ((),d')) : Fetching d' := by
  cases req with
  | lookup parent name =>
    obtain ⟨r,u,looked,tail⟩ := Prog.bindSome ok
    have after : Fetching u := lookupFetching fetching careful looked
    split at tail <;>
    · cases Option.some.inj tail
      exact fetchingAsked _ after
  | openFile => exact openFetching fetching careful ok
  | forget ino n =>
    obtain ⟨_,u,first,last⟩ := Prog.bindSome ok
    have all : forgetAll [(ino,n)] e d = some ((),u) := Prog.bindEq first
    exact @forgetsFetching e d d' [(ino,n)] fetching ((Prog.bindEq all).trans last)
  | forgetMulti forgets => exact forgetsFetching fetching ok
  | _ => exact careful.elim

theorem remoteFetching {v : Volume Call} (fetching : Fetching d)
    (spared : ∀ c ∈ d.inodes.cells, Published {d with fs := {d.fs with vol := v}} c) :
    Fetching {d with fs := {d.fs with vol := v}} := by
  intro c mem
  have ok := fetching c mem
  refine ⟨ok.live,fun foreign => (spared c mem foreign).1,ok.copy.imp_right ?_⟩
  rintro ⟨g,p,there,linked,_⟩
  refine ⟨g,p,there,linked,fun foreign less => ?_⟩
  exact (spared c mem foreign).2.resolve_right fun whole => absurd less (Nat.not_lt.mpr (whole g there))

theorem stepFetching {x : Event} (fetching : Fetching d) (careful : Careful d x)
    (ok : step d x = some d') : Fetching d' := by
  cases x with
  | request req e =>
    obtain ⟨⟨_,u⟩,done,rfl⟩ := Option.map_eq_some_iff.mp ok
    have careful' : Consumes {d with replies := []} e req := by cases req <;> exact careful.2
    exact requestFetching (fetchingAsked [] fetching) careful' done
  | restart =>
    cases Option.some.inj ok
    exact fun c mem => absurd mem List.not_mem_nil
  | fetch dir name ino data =>
    cases Option.some.inj ok
    exact fetchingGrowing fetching ⟨rfl,fun _ => rfl,rfl⟩ (clientGrowing d.id dir name ino data)
      (refl_of (Tabled SameCopy) d) fun _ _ _ _ hit => hit.elim
  | remote v =>
    cases Option.some.inj ok
    exact remoteFetching fetching careful

end Events

instance (m idDir name bytes) : Decidable (Whole m idDir name bytes) := by
  unfold Whole
  rcases m.dirAt idDir with _ | ⟨_,q⟩
  · infer_instance
  · dsimp only
    rcases m.vol.tree.find (q ++ [name]) <;> infer_instance

instance (e d dir name) : Decidable (Fresh e d dir name) := by
  unfold Fresh
  rcases resolve e d.fs d.conf.srcDev dir name with _ | ⟨_,attr⟩ <;> infer_instance

instance (d c) : Decidable (Published d c) := by unfold Published; infer_instance

instance (d x) : Decidable (Careful d x) := by
  unfold Careful Consumes
  rcases x with ⟨req,_⟩ | _ | _ | _ <;> try infer_instance
  rcases req <;> infer_instance

def produced : Option (Volume Call) :=
  (run Driver.step (mounted true)
    [.request (.create .root nameId forWriting) (calm 10),
     .request (.writeBuf (.node 0) ⟨.id,.fd 1⟩ 0 [1,2,3]) (calm 10),
     .request (.release (.node 0) ⟨.id,.fd 1⟩) (calm 10)]).map fun d => Driver.Mount.exit d.fs

def consumer (v : Volume Call) : State :=
  boot ⟨[47,105],[50],true⟩ v (emptyVolume 7 ⟨[105],okI⟩)

def fetchRun : List Event :=
  [.request (.lookup .root nameId) (calm 20),
   .request (.openFile (.node 0) ⟨.read,false,false⟩) (calm 20),
   .fetch [] nameId 21 [1,2],
   .request (.forget (.node 0) 0) (calm 20)]

end F3.Driver.Fetch
