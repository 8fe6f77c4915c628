import F3.DriverOwnersRun
import F3.DriverFetch

/-! The size of a file as getattr and lookup report it. Both take it from the copy that an
inode stands for; of an ID file each puts its own larger size in its place. -/
namespace F3.Driver.Stats
open Lib (Bytes Arena Cell Prog Act)
open Lib.Prog (keepsBind bindSome pureSome keepsIte)
open Lib.Posix
open Lib.Run (run Meets)
open Fds Owners
open Service (Outside Desk Op Dirent DirHandle core call attempt)
open Fetch (published)

def Fresh (d d' : State) (c : Cell SrcId Inode) : Prop := ∀ n, c.value.fd = .fd n →
  d.fs.next ≤ n ∧ n < d'.fs.next ∧ ∀ f, d'.fs.file (.fd n) = some f → f.entry.ino = c.key.1

structure Refers (d d' : State) : Prop where
  ages : Ages d.fs d'.fs
  cells : ∀ c ∈ d'.inodes.cells,
    (∃ b ∈ d.inodes.cells, b.key = c.key ∧ b.value.fd = c.value.fd) ∨ Fresh d d' c

theorem freshLater {d d1 d' : State} {b c : Cell SrcId Inode} (fresh : Fresh d d1 b) (ages : Ages d1.fs d'.fs)
    (key : b.key = c.key) (fd : b.value.fd = c.value.fd) : Fresh d d' c := by
  intro n isFd
  obtain ⟨low,high,file⟩ := fresh n (fd.trans isFd)
  exact ⟨low,Nat.lt_of_lt_of_le high ages.next,fun f known => key ▸ file f (ages.old high known)⟩

instance : IsPreorder State Refers where
  refl d := ⟨refl_of Ages d.fs,fun c mem => .inl ⟨c,mem,rfl,rfl⟩⟩
  trans d d1 d' one two := by
    refine ⟨trans_of Ages one.ages two.ages,fun c mem => ?_⟩
    rcases two.cells c mem with ⟨b,memB,key,fd⟩ | fresh
    · rcases one.cells b memB with ⟨a,memA,keyA,fdA⟩ | fresh
      · exact .inl ⟨a,memA,keyA.trans key,fdA.trans fd⟩
      · exact .inr (freshLater fresh two.ages key fd)
    · refine .inr fun n isFd => ?_
      obtain ⟨low,rest⟩ := fresh n isFd
      exact ⟨Nat.le_trans one.ages.next low,rest⟩

theorem keptRefers {d d' : State} (kept : Kept d d') : Refers d d' :=
  ⟨tidyAges kept.fs,fun _ mem => .inl (shapeCells kept.cells mem)⟩

theorem sameRefers {d d' : State} (ages : Ages d.fs d'.fs) (table : d'.inodes = d.inodes) : Refers d d' :=
  ⟨ages,fun c mem => .inl ⟨c,table ▸ mem,rfl,rfl⟩⟩

theorem mountRefers {d : State} (side : Side) {m : Mount Call} (ages : Ages (d.mount side) m) :
    Refers d (d.setMount side m) := by
  cases side with
  | fs => exact sameRefers ages rfl
  | id => exact sameRefers (refl_of Ages d.fs) rfl

theorem openedAges {m m' : Mount Call} {k f} (opened : Opened k f m m') : Ages m m' := by
  refine ⟨Nat.le_of_lt (Nat.lt_of_le_of_lt opened.new opened.next),fun {n g} below known => ?_⟩
  rwa [opened.others n (Nat.ne_of_lt (Nat.lt_of_lt_of_le below opened.new))] at known

section Handlers
variable {α : Type}

theorem keptKeeps {p : Handler α} (kept : Prog.Keeps Kept p) : Prog.Keeps Refers p :=
  fun e d a d' ok => keptRefers (kept e d a d' ok)

theorem sysRefers (side : Side) {p : Sys Call α} (ages : Act.Keeps Ages p) : Prog.Keeps Refers (sys side p) := by
  intro e d a d' ok
  obtain ⟨_,rfl⟩ := sysSome ok
  exact mountRefers side (ages e _)

theorem closeRefers (side : Side) (slot : Slot) : Prog.Keeps Refers (sys side (close slot)) :=
  sysRefers side fun e m => (closeQuiet slot e m).ages

theorem reopenAges (c : Call) (slot : Slot) (flags : Flags) : Act.Keeps Ages (reopen c slot flags) := by
  intro e m
  rcases reopenOpens c e m slot flags with ⟨err,same⟩ | ⟨f,n,same,opened⟩
  · rw [same]
    exact refl_of Ages m
  · rw [same]
    exact openedAges opened

theorem openCreateAges (c : Call) (dir : Slot) (name : FileName) (flags : Flags) :
    Act.Keeps Ages (openCreate c dir name flags) := by
  intro e m
  rcases openCreateOpens c e m dir name flags with ⟨err,same⟩ | ⟨f,n,same,opened⟩
  · rw [same]
    exact refl_of Ages m
  · rw [same]
    exact openedAges opened

theorem lookupRefers (parent : Ref) (name : FileName) : Prog.Keeps Refers (doLookup parent name) := by
  intro e d r d' ok
  have ages := (doLookupLooks parent name e d r d' ok).fs.ages
  obtain ⟨dir,_,first,_⟩ := bindSome ok
  have known := (getInodeSome first).2.1
  cases lookupBooked known ok with
  | missed _ table _ _ => exact sameRefers ages table
  | refused _ table _ _ => exact sameRefers ages table
  | counted _ cells _ _ _ => exact ⟨ages,fun _ mem => .inl (shapeCells cells mem)⟩
  | @filled attr c copy found key _ entry fs copied =>
    refine ⟨ages,fun b mem => ?_⟩
    rcases entry.cells b mem with old | ⟨_,sameKey,fd,_⟩
    · exact .inl ⟨b,old,rfl,rfl⟩
    · refine .inr fun n isFd => ?_
      cases fd.symm.trans isFd
      refine ⟨Nat.le_refl _,lookupNext known ok found,fun f known => ?_⟩
      rcases fs with ⟨_,g,opened,isIno,_⟩ | ⟨_,tidy⟩
      · cases Option.some.inj (opened.here.symm.trans known)
        rw [isIno,sameKey,key]
      · rw [tidy.file,fileNew d.fs (Nat.le_refl _)] at known
        cases known

theorem chooseRefers (parent : Ref) (name : FileName) (fd idFd : Slot) :
    Prog.Keeps Refers (chooseCopy parent name fd idFd) := by
  intro e d fh d' ok
  obtain ⟨_,_,_,⟨_,_,t,kept,rfl⟩ | ⟨_,_,kept⟩⟩ := chooseRan ok
  · exact trans_of Refers (keptRefers kept) (mountRefers .fs (closeQuiet fd e t.fs).ages)
  · exact keptRefers kept

theorem createRefers (parent : Ref) (name : FileName) (flags : Flags) :
    Prog.Keeps Refers (sfsCreate parent name flags) := by
  refine keepsBind (getInodeKeeps parent) fun dir =>
    keepsBind (sysRefers .fs (openCreateAges _ _ _ _)) fun r => ?_
  cases r with
  | error err => exact keptKeeps (replyKept _)
  | ok fd =>
    refine keepsBind (sysRefers .id (openCreateAges _ _ _ _)) fun r => ?_
    cases r with
    | error err => exact keptKeeps (replyKept _)
    | ok idFd =>
      refine keepsBind (chooseRefers _ _ _ _) fun fh => keepsBind (lookupRefers _ _) fun r => ?_
      cases r with
      | error err => exact keptKeeps (replyKept _)
      | ok x => exact keptKeeps (replyCreateKept x fh)

theorem mknodRefers (parent : Ref) (name : FileName) (kind : Kind) (link : Bytes) :
    Prog.Keeps Refers (mknodSymlink parent name kind link) := by
  refine keepsBind (getInodeKeeps parent) fun dir => keepsBind ?_ fun r => ?_
  · exact keepsAndThen (keptKeeps (sysKept .fs (makeAtTidy _ _ _ _ _))) fun _ =>
      keepsAndThen (keptKeeps (mknodIdKept _ _ _ _ _)) fun _ => lookupRefers _ _
  · cases r <;> exact keptKeeps (replyKept _)

theorem eraseRefers (key : SrcId) : Prog.Keeps Refers (eraseInode key) := by
  intro e d _ d' ok
  rcases eraseRan ok with ⟨_,rfl⟩ | ⟨c,_,rfl⟩
  · exact refl_of Refers d'
  · exact ⟨(closeQuiet c.value.fd e d.fs).ages,fun b mem => .inl ⟨b,(List.mem_filter.mp mem).1,rfl,rfl⟩⟩

theorem forgetRefers (ino : Ref) (n : Nat) : Prog.Keeps Refers (forgetOne ino n) := by
  intro e d _ d' ok
  obtain ⟨i,t,_,_,kept,⟨_,rfl⟩ | ⟨_,erased⟩⟩ := forgetRan ok
  · exact keptRefers kept
  · exact trans_of Refers (keptRefers kept) (eraseRefers _ e _ _ _ erased)

theorem forgetAllRefers (forgets : List (Ref × Nat)) : Prog.Keeps Refers (forgetAll forgets) :=
  forgetAllKeeps (fun _ _ => forgetRefers _ _) forgets

theorem forgetEntryRefers (x : EntryParam) : Prog.Keeps Refers (forgetEntry x) :=
  forgetEntryKeeps (fun _ => forgetRefers _ _) x

theorem unlinkRefers (parent : Ref) (name : FileName) : Prog.Keeps Refers (sfsUnlink parent name) := by
  refine keepsBind (getInodeKeeps parent) fun dir => keepsBind Prog.keepsGet fun d =>
    keepsIte (keptKeeps (keptNames.unlink _ _)) (keepsBind (lookupRefers _ _) fun r => ?_)
  cases r with
  | error err => exact keptKeeps (replyKept _)
  | ok x =>
    refine keepsBind ?_ fun _ => keptKeeps (keptNames.unlink _ _)
    intro e d _ d' ok
    rcases releaseUnlinkedRan ok with rfl | ⟨a,c,_,_,rfl⟩
    · exact refl_of Refers d'
    · refine ⟨(closeQuiet c.value.fd e d.fs).ages,Arena.allModify (fun b old _ => .inl ⟨b,old,rfl,rfl⟩) ?_⟩
      exact fun b _ _ => .inr fun n isFd => by cases isFd

theorem openRefers (ino : Ref) (flags : Flags) : Prog.Keeps Refers (sfsOpen ino flags) := by
  refine keepsBind (getInodeKeeps ino) fun i => keepsBind Prog.keepsGet fun d =>
    keepsBind (Prog.keepsOnlyIf (keptKeeps (startDownloadKept _ _))) fun _ =>
    keepsBind (sysRefers _ (reopenAges _ _ _)) fun r => ?_
  cases r with
  | error err => exact keptKeeps (replyKept _)
  | ok fd => exact keptKeeps (keepsBind (setInodeKept _ fun _ => ⟨rfl,rfl,rfl⟩) fun _ => replyKept _)

theorem releaseRefers (ino : Ref) (fh : Handle) : Prog.Keeps Refers (sfsRelease ino fh) := by
  intro e d _ d' ok
  obtain ⟨t,before,after⟩ := releaseRan ok
  exact trans_of Refers (keptRefers before)
    (trans_of Refers (mountRefers fh.side (closeQuiet fh.fd e _).ages) (keptRefers after))

theorem readdirRefers (ino : Ref) (stream : List DirEntry) (sofar : List (FileName × EntryParam)) :
    Prog.Keeps Refers (readdirLoop ino stream sofar) := by
  induction stream generalizing sofar with
  | nil => exact keptKeeps (replyKept _)
  | cons x rest ih =>
    refine keepsBind (Prog.keepsWithin (lookupRefers _ _)) fun r => ?_
    cases r with
    | error err => exact keptKeeps (replyKept _)
    | ok y =>
      refine keepsIte (ih _) ?_
      exact keepsBind (forgetEntryRefers y) fun _ => keptKeeps (replyKept _)

theorem handleRefers (req : Req) : Prog.Keeps Refers (handle req) := by
  cases req with
  | lookup parent name =>
    refine keepsBind (lookupRefers _ _) fun r => ?_
    split <;> exact keptKeeps (replyKept _)
  | mknod => exact mknodRefers _ _ _ _
  | link => exact keptKeeps (keptNames.link _ _ _)
  | create => exact createRefers _ _ _
  | rmdir => exact keptKeeps (keptNames.rmdir _ _)
  | rename => exact keptKeeps (keptNames.rename _ _ _ _ _)
  | unlink => exact unlinkRefers _ _
  | forget => exact keepsBind (forgetRefers _ _) fun _ => keptKeeps (replyKept _)
  | forgetMulti => exact keepsBind (forgetAllRefers _) fun _ => keptKeeps (replyKept _)
  | readdirplus => exact keepsBind (getInodeKeeps _) fun _ => readdirRefers _ _ _
  | openFile => exact openRefers _ _
  | release => exact releaseRefers _ _
  | writeBuf => exact keptKeeps (keptNames.write _ _ _ _)
  | getattr => exact keptKeeps (keptNames.getattr _)
  | setattr => exact keptKeeps (keptNames.setattr _ _ _)
  | setxattr => exact keptKeeps (setxattrKept _ _ _ _)
  | removexattr => exact keptKeeps (removexattrKept _ _)

end Handlers

def RefersDesk (k k' : Desk) : Prop := Refers k.driver k'.driver

instance : IsPreorder Desk RefersDesk where
  refl k := refl_of Refers k.driver
  trans _ _ _ one two := trans_of Refers one two

section Served
variable {α : Type}

theorem coreRefers {p : Handler α} (keeps : Prog.Keeps Refers p) : Prog.Keeps RefersDesk (core p) :=
  fun _ _ _ _ ok => keeps _ _ _ _ (coreSome ok)

theorem deskRefers {p : Service.Serve α} (keeps : Prog.Keeps KeptDesk p) : Prog.Keeps RefersDesk p :=
  fun out k a k' ok => keptRefers (keeps out k a k' ok)

theorem opendirRefers (ino : Ref) : Prog.Keeps RefersDesk (Service.sfsOpendir ino) := by
  refine keepsBind (deskRefers (coreKept (getInodeKeeps ino))) fun i =>
    keepsBind (deskRefers (attemptKept _)) fun r => ?_
  cases r with
  | error err => exact deskRefers (failKept _)
  | ok _ =>
    refine keepsBind (keepsAndThen ?_ fun fd => keepsAndThen (deskRefers (attemptKept _)) fun _ =>
      Prog.keepsPure _) fun r => ?_
    · intro out k r k' ok
      rcases callSome ok with ⟨_,rfl⟩ | ⟨a,m,_,done,rfl⟩
      · exact refl_of RefersDesk k'
      · obtain ⟨f,_,opened⟩ := openDotOpens done
        exact mountRefers i.side (openedAges opened)
    · cases r with
      | error err => exact deskRefers (failKept _)
      | ok fd => exact deskRefers (answerKept _)

theorem streamRefers (ino : Ref) (plus : Bool) (stream : List Dirent) (sofar : List (FileName × EntryParam)) :
    Prog.Keeps RefersDesk (Service.readdirLoop ino plus stream sofar) := by
  induction stream generalizing sofar with
  | nil =>
    refine keepsBind (deskRefers (attemptKept _)) fun r => ?_
    cases r <;> exact deskRefers (coreKept (collectedKept _ _))
  | cons x rest ih =>
    cases x with
    | dots => exact ih sofar
    | entry x attrIno kind =>
      refine keepsIte ?_ (keepsIte (ih _) (deskRefers (coreKept (collectedKept _ _))))
      refine keepsBind (coreRefers (Prog.keepsWithin (lookupRefers _ _))) fun r => ?_
      cases r with
      | error err => exact deskRefers (coreKept (collectedKept _ _))
      | ok y =>
        refine keepsIte (ih _) ?_
        exact keepsBind (coreRefers (forgetEntryRefers y)) fun _ =>
          deskRefers (coreKept (collectedKept _ _))

theorem doReaddirRefers (ino : Ref) (plus : Bool) (stream : List Dirent) :
    Prog.Keeps RefersDesk (Service.doReaddir ino plus stream) := by
  refine keepsBind (deskRefers (coreKept (getInodeKeeps ino))) fun _ =>
    keepsBind (deskRefers (attemptKept _)) fun r => ?_
  cases r with
  | error err => exact deskRefers (failKept _)
  | ok _ => exact streamRefers ino plus stream []

theorem serveRefers (op : Op) : Prog.Keeps RefersDesk (Service.serve op) := by
  cases op with
  | request req => exact coreRefers (handleRefers req)
  | opendir => exact opendirRefers _
  | readdir => exact doReaddirRefers _ _ _
  | readdirplus => exact doReaddirRefers _ _ _
  | releasedir =>
    exact keepsBind (coreRefers (closeRefers _ _)) fun _ => deskRefers (coreKept (replyKept _))
  | setattr => exact deskRefers (doSetattrKept _ _ _)
  | readlink => exact deskRefers (readlinkKept _)
  | fsyncdir => exact deskRefers (onHandleKept _ _ _)
  | flush => exact deskRefers (onHandleKept _ _ _)
  | fsync => exact deskRefers (onHandleKept _ _ _)
  | flock => exact deskRefers (onHandleKept _ _ _)
  | read => exact deskRefers (readKept _ _ _ _)
  | statfs => exact deskRefers (statfsKept _)
  | fallocate => exact deskRefers (fallocateKept _ _ _ _)
  | getxattr => exact deskRefers (getxattrKept _ _ _)
  | listxattr => exact deskRefers (listxattrKept _ _)

end Served

def Stored (d : State) : Prop := ∀ c ∈ d.inodes.cells, ∀ n, c.value.fd = .fd n →
  n < d.fs.next ∧ ∀ f, d.fs.file (.fd n) = some f → f.entry.ino = c.key.1

theorem refersStored {d d' : State} (refers : Refers d d') (stored : Stored d) : Stored d' := by
  intro c mem n isFd
  rcases refers.cells c mem with ⟨b,old,key,fd⟩ | fresh
  · obtain ⟨below,file⟩ := stored b old n (fd.trans isFd)
    exact ⟨Nat.lt_of_lt_of_le below refers.ages.next,fun f known => key ▸ file f (refers.ages.old below known)⟩
  · exact (fresh n isFd).2

theorem stepStored {s s' : Session} {m : Move} (stored : Stored s.driver) (ok : Owners.step s m = some s') :
    Stored s'.driver := by
  cases m with
  | serve op out =>
    simp only [Owners.step] at ok
    split at ok <;> try contradiction
    obtain ⟨⟨_,k⟩,ran,rfl⟩ := Option.map_eq_some_iff.mp ok
    exact refersStored (serveRefers op out _ () k ran) stored
  | outside side v =>
    cases Option.some.inj ok
    refine refersStored (mountRefers side ?_) stored
    exact tidyAges (sameTidy rfl rfl rfl)
  | restart =>
    cases Option.some.inj ok
    exact fun c mem => by cases mem

theorem runStored {opts : Options} {fs id : Volume Call} {moves : List Move} {s : Session}
    (ok : run Owners.step ⟨boot opts fs id,[]⟩ moves = some s) : Stored s.driver := by
  refine Lib.Run.invariant (fun _ _ => True) (fun s => Stored s.driver) (fun stored _ ok => stepStored stored ok)
    ?_ (Lib.Run.meetsOfMem fun _ _ _ => trivial) ok
  exact fun c mem => by cases mem

-- What both report for an ID file: a size that was published, if it is larger as an off_t.
def larger (size other : Nat) : Nat := if (size : Int) < offT other then other else size

theorem largerIff {size a b : Nat} : larger size a = larger size b ↔
    a = b ∨ offT a ≤ size ∧ offT b ≤ size := by
  unfold larger offT
  split <;> split <;> split <;> split <;> omega

def sizeRead (e : Env Call) (m : Mount Call) (fd : Slot) : Nat := match m.file fd with
  | some f => if e.fault (.getOpen f3Size) = none ∧ e.fault (.getAttr f3Size) = none ∧
      (f.entry.kind = .dir ∨ f.entry.kind = .reg) then published m.vol f.entry.ino else 0
  | none => 0

theorem getSizeReads (fd : Slot) (e : Env Call) (m : Mount Call) :
    (f3GetSizeXattr fd e m).1 = sizeRead e m fd := by
  have zero : sizeT (strtol []) = 0 := by decide
  have failed : ∀ err, f3GetFullFd (.getOpen f3Size) fd .read e m = (.error err,m) →
      (f3GetSizeXattr fd e m).1 = 0 := by
    intro err same
    simp only [f3GetSizeXattr,f3GetAttr,bind,same,pure,zero]
  cases known : m.file fd with
  | none =>
    rcases fullFdCases (.getOpen f3Size) fd .read e m with ⟨err,same⟩ | ⟨f,there,_⟩
    · simp only [sizeRead,known]
      exact failed err same
    · cases known.symm.trans there
  | some f =>
    simp only [sizeRead,known]
    by_cases kind : f.entry.kind = .dir ∨ f.entry.kind = .reg
    · cases opens : e.fault (.getOpen f3Size) with
      | some err =>
        simp only [reduceCtorEq,false_and,if_false]
        exact failed err (by simp [f3GetFullFd,reopen,syscall,opens])
      | none =>
        have nodes : (m.install ⟨f.entry,f.dentry,.read⟩).vol.nodes = m.vol.nodes := rfl
        simp only [f3GetSizeXattr,f3GetAttr,bind,fullFdOk known kind opens,pure]
        cases reads : e.fault (.getAttr f3Size) with
        | some err => simp [fgetxattr,syscall,reads,zero]
        | none =>
          simp only [fgetxattr,syscall,reads,bind,Except.bind,fullInstalled kind,nodes,published,kind,
            and_self,if_true]
          cases (m.vol.nodes f.entry.ino).xattr f3Size with
          | none => simp [zero]
          | some value => by_cases short : value.length ≤ 23 <;> simp [short,zero]
    · rw [if_neg fun all => kind all.2.2]
      have closed : ∃ err, f3GetFullFd (.getOpen f3Size) fd .read e m = (.error err,m) := by
        cases fault : e.fault (.getOpen f3Size) <;> cases isKind : f.entry.kind <;>
          simp_all [f3GetFullFd,reopen,syscall,openEntry]
      obtain ⟨err,same⟩ := closed
      exact failed err same

theorem sizeReadTidy {e : Env Call} {m m' : Mount Call} {fd : Slot} (tidy : Tidy m m') (quiet : Quiet m m') :
    sizeRead e m' fd = sizeRead e m fd := by
  have file : m'.file fd = m.file fd := by
    cases fd with
    | fd n => exact tidy.file n
    | _ => rfl
  simp only [sizeRead,file,published,quiet.nodes]

theorem answerSome {a generation : Nat} {newfd : Slot} {attr : Stat} {e : Env Call} {d d' : State} {x}
    (ok : answerAttr a generation newfd attr e d = some (.ok x,d')) :
    x.ino = some a ∧ ∃ i, d.inode (.node a) = some i ∧ (i.isId = false ∧ x.attr = attr ∧ d' = d ∨
      ∃ src g, i.isId = true ∧ d.id.file i.idFd = some g ∧ Tidy d.fs d'.fs ∧ Quiet d.fs d'.fs ∧ d'.id = d.id ∧
        d'.inode (.node a) = some {i with src := src} ∧
        x.attr.size = larger (d.id.vol.nodes g.entry.ino).content.length (sizeRead e d.fs i.fd)) := by
  obtain ⟨i,d0,got,body⟩ := bindSome ok
  obtain ⟨rfl,known,_⟩ := getInodeSome got
  split at body
  · rename_i isId
    obtain ⟨r,d1,stat,rest⟩ := bindSome body
    obtain ⟨isR,rfl⟩ := sysSome stat
    cases r with
    | error err =>
      obtain ⟨_,_,_,last⟩ := bindSome rest
      cases (pureSome last).1
    | ok st =>
      obtain ⟨n,d2,sized,rest⟩ := bindSome rest
      obtain ⟨rfl,rfl⟩ := sysSome sized
      obtain ⟨_,d3,set,last⟩ := bindSome rest
      cases Option.some.inj set
      obtain ⟨isX,rfl⟩ := pureSome last
      cases isX
      rcases fstatCases .lookupStatId i.idFd e d0.id with ⟨err,same⟩ | ⟨g,there,same⟩
      · rw [State.mount,same] at isR
        cases isR
      · have isSt : st = d0.id.vol.stat g.entry := by
          rw [State.mount,same] at isR
          exact Except.ok.inj isR
        have fsSame : d0.setMount .id (fstat .lookupStatId i.idFd e (d0.mount .id)).2 = d0 := by
          rw [State.mount,same]
          rfl
        rw [fsSame]
        refine ⟨rfl,i,known,.inr ⟨(st.ino,st.dev),g,isId,there,getSizeTidy i.fd e d0.fs,
          f3GetSizeXattrQuiet i.fd e d0.fs,rfl,inodeSet (fun i => {i with src := (st.ino,st.dev)}) known,?_⟩⟩
        rw [← getSizeReads,isSt]
        rfl
  · rename_i plain
    obtain ⟨isX,rfl⟩ := pureSome body
    cases isX
    exact ⟨rfl,i,known,.inl ⟨by simpa using plain,rfl,rfl⟩⟩

theorem getattrSome {ino : Ref} {e : Env Call} {d d' : State} {st} (fresh : d.replies = [])
    (ok : sfsGetattr ino e d = some ((),d')) (told : d'.replies = [.attr st]) :
    ∃ i f, d.inode ino = some i ∧ (d.mount i.side).file i.slot = some f ∧
      st.size = if i.isId then larger ((d.mount i.side).vol.nodes f.entry.ino).content.length i.targetSize
        else ((d.mount i.side).vol.nodes f.entry.ino).content.length := by
  obtain ⟨i,d0,got,body⟩ := bindSome ok
  obtain ⟨rfl,known,_⟩ := getInodeSome got
  obtain ⟨r,d1,stat,last⟩ := bindSome body
  obtain ⟨isR,rfl⟩ := sysSome stat
  have quiet : d0.setMount i.side (fstat .getattr i.slot e (d0.mount i.side)).2 = d0 := by
    rw [fstatState]
    cases i.side <;> rfl
  rw [quiet] at last
  rcases fstatCases .getattr i.slot e (d0.mount i.side) with ⟨err,same⟩ | ⟨f,there,same⟩
  · rw [isR,same] at last
    rw [replySome last,fresh] at told
    simp at told
  · rw [isR,same] at last
    rw [replySome last,fresh] at told
    obtain ⟨rfl⟩ : _ = st := by simpa using told
    refine ⟨i,f,known,there,?_⟩
    cases i.isId <;> simp [larger,Volume.stat]

theorem lookupCell {parent : Ref} {name : FileName} {e : Env Call} {d d' : State} {x a}
    (ok : doLookup parent name e d = some (.ok x,d')) (named : x.ino = some a) :
    ∃ dir attr cell, d.inode parent = some dir ∧ resolve e d.fs d.conf.srcDev dir name = some (.fd d.fs.next,attr) ∧
      d'.inodes.atAddr a = some cell ∧ cell.key = (attr.ino,attr.dev) := by
  cases looked ok with
  | missed _ _ failed =>
    obtain ⟨err,wrong⟩ := failed
    cases wrong
  | @known dir newfd attr c src up found here live _ names table =>
    obtain ⟨_,_,_,_,_,rfl,_⟩ := resolved found
    cases (names x rfl).symm.trans named
    obtain ⟨mem,key⟩ := Arena.atKeyMem here
    have there := Arena.atAddrModify (f := fun i => {i with nlookup := i.nlookup + 1, src := src})
      (Arena.memAtAddr mem)
    rw [← table] at there
    exact ⟨dir,attr,_,up,found,there,key⟩
  | @built dir newfd attr c src conn up found key _ entered _ _ names table =>
    obtain ⟨_,_,_,_,_,rfl,_⟩ := resolved found
    cases (names x rfl).symm.trans named
    have there := Arena.atAddrModify (f := fun i => {i.built c.key (.fd d.fs.next) (isNewHere e d.fs dir name)
      (openIdCopy dir.idFd name attr.kind e d.id).1 conn with src := src}) entered
    rw [← table] at there
    exact ⟨dir,attr,_,up,found,there,key⟩

def Current (s : Session) : Move → Prop
  | .serve (.request req) _ => Faithful s.driver req
  | .serve _ _ => FilesOpen s.driver
  | _ => True

def Attained (start s : Session) : Prop := FilesOpen s.driver ∧
  ∃ moves, Meets Owners.step Current start moves ∧ run Owners.step start moves = some s

theorem sizesAgree {opts : Options} {fs id : Volume Call} {s : Session}
    (attained : Attained ⟨boot opts fs id,[]⟩ s) {parent : Ref} {name : FileName}
    {e e' : Env Call} {x : EntryParam} {a : Nat} {d d' : State} {st : Stat}
    (lookup : doLookup parent name e s.driver = some (.ok x,d)) (named : x.ino = some a)
    (getattr : sfsGetattr (.node a) e' {d with replies := []} = some ((),d')) (told : d'.replies = [.attr st]) :
    ∃ i, d.inode (.node a) = some i ∧ (x.attr.size = st.size ↔ i.isId = false ∨
      i.targetSize = sizeRead e d.fs i.fd ∨
      offT i.targetSize ≤ idLength d i.idFd ∧ offT (sizeRead e d.fs i.fd) ≤ idLength d i.idFd) := by
  obtain ⟨_,_,_,ok⟩ := attained
  obtain ⟨i,f,here,file,size⟩ := getattrSome rfl getattr told
  have here : d.inode (.node a) = some i := here
  refine ⟨i,here,?_⟩
  obtain ⟨dir,attr,cell,up,found,atA,key⟩ := lookupCell lookup named
  have looks := doLookupLooks parent name e s.driver _ d lookup
  have stored := refersStored (lookupRefers parent name e s.driver _ d lookup) (runStored ok)
  cases lookupSome up lookup with
  | missed nothing => cases nothing.symm.trans found
  | refused nothing => cases nothing.symm.trans found
  | @entered m g attr' c found' opened ino there key' value entered rest =>
    cases found.symm.trans found'
    obtain ⟨_,u,_,answer⟩ := bindSome rest
    obtain ⟨isAddr,j,before,⟨plain,same,rfl⟩ | ⟨src,copy,isId,copied,tidy,quiet,sameId,after,reported⟩⟩ :=
      answerSome answer
    · -- No ID inode: both have asked for the shared copy, through two descriptors.
      cases isAddr.symm.trans named
      cases here.symm.trans before
      refine iff_of_true ?_ (.inl plain)
      simp only [Inode.side,Inode.slot,plain,Bool.false_eq_true,if_false] at file size
      obtain ⟨n,isFd⟩ := fdOfFile file
      have value : cell.value = i := Option.some.inj ((inodeNode atA).symm.trans here)
      have filed := (stored cell (Arena.atAddrMem atA).1 n (value ▸ isFd)).2 f (isFd ▸ file)
      obtain ⟨_,_,entry,_,_,_,isAttr,_⟩ := resolved found
      rw [size,same,filed,key,isAttr]
      show _ = ((d.fs.vol.nodes _).content).length
      rw [looks.fs.nodes]
      rfl
    · cases isAddr.symm.trans named
      cases here.symm.trans after
      simp only [Inode.side,Inode.slot,isId,if_true] at file size
      have file : u.id.file j.idFd = some f := sameId ▸ file
      cases copied.symm.trans file
      have read : sizeRead e d.fs j.fd = sizeRead e u.fs j.fd := sizeReadTidy tidy quiet
      have length : idLength d j.idFd = (u.id.vol.nodes f.entry.ino).content.length := by
        simp only [idLength,file,sameId]
      have size : st.size = larger (u.id.vol.nodes f.entry.ino).content.length j.targetSize := by
        rw [size,← sameId]
        rfl
      simp only [isId,read,length,reported,size,Bool.true_eq_false,false_or]
      rw [largerIff,eq_comm,and_comm]

instance (d : State) : Decidable (FilesOpen d) := by unfold FilesOpen; infer_instance

instance (s : Session) (move : Move) : Decidable (Current s move) := by
  unfold Current
  split <;> infer_instance

def calmly (ino : Ino) : Outside := ⟨calm ino,fun _ => none,fun _ => 0,[]⟩

-- A consumer that has opened the file: three bytes are published, none has come yet.
def openedRun : List Move :=
  [.serve (.request (.lookup .root nameId)) (calmly 20),
   .serve (.request (.openFile (.node 0) ⟨.read,false,false⟩)) (calmly 20)]

theorem openedAgrees : ∃ v s x d d' st, Fetch.produced = some v ∧
    run Owners.step ⟨Fetch.consumer v,[]⟩ openedRun = some s ∧
    doLookup .root nameId (calm 20) s.driver = some (.ok x,d) ∧
    sfsGetattr (.node 0) (calm 20) {d with replies := []} = some ((),d') ∧ d'.replies = [.attr st] ∧
    x.attr.size = st.size ∧ st.size = 3 := by
  obtain ⟨v,s,x,d,d',st,i,made,ok,lookup,here,getattr,told,opened,meets,named,target,size⟩ :
      ∃ v s x d d' st i, Fetch.produced = some v ∧
        run Owners.step ⟨Fetch.consumer v,[]⟩ openedRun = some s ∧
        doLookup .root nameId (calm 20) s.driver = some (.ok x,d) ∧ d.inode (.node 0) = some i ∧
        sfsGetattr (.node 0) (calm 20) {d with replies := []} = some ((),d') ∧
        d'.replies = [.attr st] ∧ FilesOpen s.driver ∧
        Meets Owners.step Current ⟨Fetch.consumer v,[]⟩ openedRun ∧ x.ino = some 0 ∧ i.targetSize = sizeRead (calm 20) d.fs i.fd ∧
        st.size = 3 := by
    refine ⟨_,_,_,_,_,_,_,rfl,rfl,rfl,rfl,rfl,rfl,?_⟩
    decide +kernel
  obtain ⟨j,there,agree⟩ := sizesAgree ⟨opened,openedRun,meets,ok⟩ lookup named getattr told
  cases here.symm.trans there
  exact ⟨v,s,x,d,d',st,made,ok,lookup,getattr,told,agree.mpr (.inr (.inl target)),size⟩

theorem unopenedDiffers : ∃ v x d d' st, Fetch.produced = some v ∧
    doLookup .root nameId (calm 20) (Fetch.consumer v) = some (.ok x,d) ∧ x.ino = some 0 ∧
    sfsGetattr (.node 0) (calm 20) {d with replies := []} = some ((),d') ∧ d'.replies = [.attr st] ∧
    x.attr.size = 3 ∧ st.size = 0 := by
  refine ⟨_,_,_,_,_,rfl,rfl,rfl,rfl,rfl,?_⟩
  decide +kernel

end F3.Driver.Stats
