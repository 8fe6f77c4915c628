import F3.DriverCluster
import F3.DriverAnswers
import F3.DriverConvert
import F3.DriverReplies

/-! The handles that the kernels of the nodes hold, each with the inode that it was opened
through, and what every request leaves of the descriptors and the inodes behind them. -/
namespace F3.Driver.Handles
open Lib (Bytes Arena Cell Prog Act)
open Lib.Prog (keepsBind bindSome keepsOnlyIf keepsModify)
open Lib.Posix
open Choice (Cluster Event clusterStep)

structure Grip where
  node : Nat
  ino : Ref
  fh : Handle
  deriving DecidableEq, Repr

structure Session where
  cluster : Cluster
  grips : List Grip

def gripOf (node : Nat) (req : Req) : Reply → Option Grip
  | .opened fh => match req with
      | .openFile ino _ => some ⟨node,ino,fh⟩
      | _ => none
  | .create e fh => e.ino.map fun a => ⟨node,.node a,fh⟩
  | _ => none

def taken (c : Cluster) : Event → List Grip
  | .on n (.request req _) => match c.nodes[n]? with
      | some d => d.replies.filterMap (gripOf n req)
      | none => []
  | _ => []

-- A release gives its handle back, and the end of a process all of its node's.
def kept (grips : List Grip) : Event → List Grip
  | .on n .restart => grips.filter fun x => x.node ≠ n
  | .on n (.request (.release ino fh) _) => grips.filter fun x => x ≠ ⟨n,ino,fh⟩
  | _ => grips

def step (s : Session) (event : Event) : Option Session :=
  (clusterStep s.cluster event).map fun c => ⟨c,taken c event ++ kept s.grips event⟩

def asked (c : Cluster) (d : State) : State := {c.view d with replies := []}

theorem clusterAsked {c c' : Cluster} {n : Nat} {req : Req} {e : Env Call}
    (ok : clusterStep c (.on n (.request req e)) = some c') : ∃ d d', c.nodes[n]? = some d ∧
      handle req e (asked c d) = some ((),d') ∧ c' = ⟨d'.fs.vol,c.nodes.set n d'⟩ := by
  obtain ⟨d,node,rest⟩ := Option.bind_eq_some_iff.mp ok
  obtain ⟨d',done,last⟩ := Option.bind_eq_some_iff.mp rest
  obtain ⟨⟨_,t⟩,ran,rfl⟩ := Option.map_eq_some_iff.mp done
  exact ⟨d,t,node,ran,(Option.some.inj last).symm⟩

theorem setHere {c : Cluster} {n : Nat} {d : State} (d' : State) (node : c.nodes[n]? = some d) :
    (c.nodes.set n d')[n]? = some d' :=
  List.getElem?_set_self (List.getElem?_eq_some_iff.mp node).1

theorem stepAsked {s s' : Session} {n : Nat} {req : Req} {e : Env Call}
    (ok : step s (.on n (.request req e)) = some s') : ∃ d d', s.cluster.nodes[n]? = some d ∧
      handle req e (asked s.cluster d) = some ((),d') ∧ s' = ⟨⟨d'.fs.vol,s.cluster.nodes.set n d'⟩,
        d'.replies.filterMap (gripOf n req) ++ kept s.grips (.on n (.request req e))⟩ := by
  obtain ⟨c,next,rfl⟩ := Option.map_eq_some_iff.mp ok
  obtain ⟨d,d',node,ran,rfl⟩ := clusterAsked next
  exact ⟨d,d',node,ran,by simp only [taken,setHere d' node]⟩

theorem askedStep {s : Session} {n : Nat} {req : Req} {e : Env Call} {d d' : State}
    (node : s.cluster.nodes[n]? = some d) (ran : handle req e (asked s.cluster d) = some ((),d')) :
    step s (.on n (.request req e)) = some ⟨⟨d'.fs.vol,s.cluster.nodes.set n d'⟩,
      d'.replies.filterMap (gripOf n req) ++ kept s.grips (.on n (.request req e))⟩ := by
  have next : clusterStep s.cluster (.on n (.request req e)) = some ⟨d'.fs.vol,s.cluster.nodes.set n d'⟩ := by
    show (s.cluster.nodes[n]? >>= _) = _
    rw [node]
    show ((handle req e (asked s.cluster d)).map Prod.snd >>= _) = _
    rw [ran]
    rfl
  simp only [step,next,Option.map_some,taken,setHere d' node]

structure Same (i j : Inode) : Prop where
  fd : j.fd = i.fd
  isId : j.isId = i.isId
  size : j.size = i.size

theorem Same.live {i j : Inode} (same : Same i j) (live : i.Live) : j.Live := by
  rw [Inode.Live,same.fd]
  exact live

structure Steady (d d' : State) : Prop where
  cells : ∀ {a c}, d.inodes.atAddr a = some c → c.value.Live →
    ∃ v, d'.inodes.atAddr a = some {c with value := v} ∧ Same c.value v
  fs : Held d.fs.next d.fs d'.fs
  id : Held d.id.next d.id d'.id

instance : IsPreorder State Steady where
  refl d := ⟨fun {_ c} here _ => ⟨c.value,here,rfl,rfl,rfl⟩,refl_of (Held d.fs.next) d.fs,
    refl_of (Held d.id.next) d.id⟩
  trans d _ _ one two := by
    refine ⟨fun here live => ?_,trans_of (Held d.fs.next) one.fs (heldLess one.fs.next two.fs),
      trans_of (Held d.id.next) one.id (heldLess one.id.next two.id)⟩
    obtain ⟨v,stays,same⟩ := one.cells here live
    obtain ⟨w,ends,last⟩ := two.cells stays (same.live live)
    exact ⟨w,ends,last.fd.trans same.fd,last.isId.trans same.isId,last.size.trans same.size⟩

theorem steadyTable {d d' : State} (table : d'.inodes = d.inodes) (fs : Held d.fs.next d.fs d'.fs)
    (id : Held d.id.next d.id d'.id) : Steady d d' :=
  ⟨fun {_ c} here _ => ⟨c.value,by rw [table]; exact here,rfl,rfl,rfl⟩,fs,id⟩

theorem sysSteady {α : Type} (side : Side) {p : Sys Call α} (held : ∀ e m, Held m.next m (p e m).2) :
    Prog.Keeps Steady (sys side p) := by
  intro e d a d' ok
  rw [(sysSome ok).2]
  cases side with
  | fs => exact steadyTable rfl (held e d.fs) (refl_of (Held d.id.next) d.id)
  | id => exact steadyTable rfl (refl_of (Held d.fs.next) d.fs) (held e d.id)

theorem setInodeSteady {f : Inode → Inode} (ref : Ref) (each : ∀ i, Same i (f i)) :
    Prog.Keeps Steady (setInode ref f) := by
  refine keepsModify fun d => ?_
  cases ref with
  | root => exact steadyTable rfl (refl_of (Held d.fs.next) d.fs) (refl_of (Held d.id.next) d.id)
  | node b =>
    refine ⟨fun {a c} here _ => ?_,refl_of (Held d.fs.next) d.fs,refl_of (Held d.id.next) d.id⟩
    by_cases hit : a = b
    · subst hit
      exact ⟨f c.value,Arena.atAddrModify here,each c.value⟩
    · exact ⟨c.value,(Arena.atAddrModifyOther hit).trans here,rfl,rfl,rfl⟩

theorem replySteady (r : Reply) : Prog.Keeps Steady (reply r) :=
  keepsModify fun d => steadyTable rfl (refl_of (Held d.fs.next) d.fs) (refl_of (Held d.id.next) d.id)

theorem lookupSteady {parent : Ref} {name : FileName} {e : Env Call} {d : State} {r d'}
    (ok : doLookup parent name e d = some (r,d')) : Steady d d' := by
  refine ⟨fun {a x} at_ alive => ?_,lookupHeld ok,lookupHeldId ok⟩
  cases looked ok with
  | missed up nothing failed table => exact ⟨x.value,by rw [table]; exact at_,rfl,rfl,rfl⟩
  | @known dir newfd attr c src up found here live unchanged named table =>
    rw [table]
    by_cases hit : a = c.addr
    · subst hit
      exact ⟨_,Arena.atAddrModify at_,rfl,rfl,rfl⟩
    · exact ⟨x.value,(Arena.atAddrModifyOther hit).trans at_,rfl,rfl,rfl⟩
  | @built dir newfd attr c src conn up found key old entered dead unchanged named table =>
    have stays := Arena.atAddrEnter (k := c.key) {} at_
    have apart : a ≠ c.addr := by
      rintro rfl
      exact dead (Option.some.inj (entered.symm.trans stays) ▸ alive)
    rw [table]
    exact ⟨x.value,(Arena.atAddrModifyOther apart).trans stays,rfl,rfl,rfl⟩

structure Spares (m m' : Mount Call) : Prop where
  kept : ∀ {p entry}, m.vol.tree.find p = some entry → m'.vol.tree.find p = some entry
  content : ∀ {p entry}, m.vol.tree.find p = some entry →
    (m'.vol.nodes entry.ino).content = (m.vol.nodes entry.ino).content

instance : IsPreorder (Mount Call) Spares where
  refl _ := ⟨id,fun _ => rfl⟩
  trans _ _ _ one two := ⟨fun found => two.kept (one.kept found),
    fun found => (two.content (one.kept found)).trans (one.content found)⟩

theorem quietSpares {m m' : Mount Call} (quiet : Quiet m m') : Spares m m' :=
  ⟨fun found => quiet.tree ▸ found,fun _ => by rw [quiet.nodes]⟩

theorem madeSpares {m : Mount Call} {v : Volume Call} {c ino kind content p name}
    (made : m.vol.make c ino kind content p name = .ok v) : Spares m {m with vol := v} := by
  obtain ⟨free,ok,tree,nodes,_⟩ := makeOk made
  refine ⟨fun found => (makeGrows made).kept found,fun {q entry} found => ?_⟩
  have other : entry.ino ≠ ino := free.2 _ (Lib.Tree.foundMem.mp found)
  show (v.nodes entry.ino).content = _
  rw [nodes]
  simp [Volume.setNode,other]

theorem makeAtSpares (c : Call) (dir : Slot) (name : FileName) (kind : Kind) (content : Bytes) :
    Act.Keeps Spares (makeAt c dir name kind content) := by
  intro e m
  rcases makeAtCases c dir name kind content e m with ⟨err,same⟩ | ⟨_,_,v,_,made,same⟩ <;> rw [same]
  · exact refl_of Spares m
  · exact madeSpares made

theorem createSpares (c : Call) (dir : Slot) (name : FileName) (access : Access) :
    Act.Keeps Spares (openCreate c dir name ⟨access,false,false⟩) := by
  intro e m
  rcases openCreateCases c dir name ⟨access,false,false⟩ e m with ⟨err,same⟩ | ⟨_,_,entry,_,_,_,same⟩ |
    ⟨_,_,v,_,made,same⟩ <;> rw [same]
  · exact refl_of Spares m
  · exact quietSpares (by simpa [cleared] using installQuiet m _)
  · exact trans_of Spares (madeSpares made) (quietSpares (installQuiet _ _))

theorem copySpares (idDir : Slot) (name : FileName) (kind : Kind) :
    Act.Keeps Spares (openIdCopy idDir name kind) :=
  openIdCopyKeeps (fun c e m => quietSpares (openPathQuiet c idDir name e m))
    (fun c => makeAtSpares c idDir name .dir []) (fun c => createSpares c idDir name .read)
    (fun slot e m => quietSpares (closeQuiet slot e m)) kind

theorem lookupSpares {parent : Ref} {name : FileName} {e : Env Call} {d : State} {r d'}
    (ok : doLookup parent name e d = some (r,d')) : Spares d.id d'.id := by
  obtain ⟨dir,u,first,_⟩ := bindSome ok
  obtain ⟨rfl,known,_⟩ := getInodeSome first
  have told := lookupTold known ok
  unfold Told at told
  split at told
  · rw [told]
    exact refl_of Spares u.id
  · simp only at told
    split at told
    · rw [told.1]
      exact refl_of Spares u.id
    · rw [told.1]
      exact copySpares _ _ _ e u.id

theorem reopenHeld (c : Call) (slot : Slot) (flags : Flags) (e : Env Call) (m : Mount Call) :
    Held m.next m (reopen c slot flags e m).2 := by
  rcases reopenCases c slot flags e m with ⟨err,same⟩ | ⟨f,there,same⟩ <;> rw [same]
  · exact refl_of (Held m.next) m
  · obtain ⟨opened,next⟩ := clearedFiles flags m f.entry
    exact trans_of (Held m.next) (sameHeld opened next) (installHeld (Nat.le_of_eq next.symm) _)

def Untouched (d d' : State) : Prop := ∀ side ino,
  ((d'.mount side).vol.nodes ino).content = ((d.mount side).vol.nodes ino).content

instance : IsPreorder State Untouched where
  refl _ _ _ := rfl
  trans _ _ _ one two side ino := (two side ino).trans (one side ino)

theorem sysUntouched {α : Type} (side : Side) {p : Sys Call α} (same : ∀ e m ino,
    ((p e m).2.vol.nodes ino).content = (m.vol.nodes ino).content) : Prog.Keeps Untouched (sys side p) := by
  intro e d a d' ok
  rw [(sysSome ok).2]
  intro other ino
  cases side <;> cases other <;> simp [State.mount,State.setMount,same]

theorem quietUntouched {α : Type} (side : Side) {p : Sys Call α} (quiet : Act.Keeps Quiet p) :
    Prog.Keeps Untouched (sys side p) :=
  sysUntouched side fun e m ino => by rw [(quiet e m).nodes]

theorem replyUntouched (r : Reply) : Prog.Keeps Untouched (reply r) :=
  keepsModify fun d side ino => by cases side <;> rfl

structure Idle (d d' : State) : Prop where
  steady : Steady d d'
  same : Untouched d d'
  mute : d'.replies = d.replies

instance : IsPreorder State Idle where
  refl d := ⟨refl_of Steady d,refl_of Untouched d,rfl⟩
  trans _ _ _ one two := ⟨trans_of Steady one.steady two.steady,trans_of Untouched one.same two.same,
    two.mute.trans one.mute⟩

theorem sysIdle {α : Type} (side : Side) {p : Sys Call α} (held : ∀ e m, Held m.next m (p e m).2)
    (same : ∀ e m ino, ((p e m).2.vol.nodes ino).content = (m.vol.nodes ino).content) :
    Prog.Keeps Idle (sys side p) := fun e d a d' ok =>
  ⟨sysSteady side held e d a d' ok,sysUntouched side same e d a d' ok,Service.sysMute side p e d a d' ok⟩

theorem getAttrIdle (attr : Bytes) (size : Nat) (fd : Slot) :
    Prog.Keeps Idle (sys .fs (f3GetAttr attr size fd)) :=
  sysIdle .fs (f3GetAttrHeld attr size fd) fun e m ino => by rw [(f3GetAttrQuiet attr size fd e m).nodes]

theorem getSizeIdle (fd : Slot) : Prog.Keeps Idle (sys .fs (f3GetSizeXattr fd)) :=
  sysIdle .fs (fun e m => f3GetAttrHeld f3Size 23 fd e m)
    fun e m ino => by rw [(f3GetSizeXattrQuiet fd e m).nodes]

theorem setInodeIdle {f : Inode → Inode} (ref : Ref) (each : ∀ i, Same i (f i)) :
    Prog.Keeps Idle (setInode ref f) := fun e d a d' ok =>
  ⟨setInodeSteady ref each e d a d' ok,by
    cases Option.some.inj ok
    intro side ino
    cases ref <;> cases side <;> rfl,Service.setInodeMute ref f e d a d' ok⟩

theorem sendIdle (m : Message) : Prog.Keeps Idle (send m) :=
  keepsModify fun d => ⟨steadyTable rfl (refl_of (Held d.fs.next) d.fs) (refl_of (Held d.id.next) d.id),
    fun side ino => by cases side <;> rfl,rfl⟩

theorem startIdle (ino : Ref) (i : Inode) : Prog.Keeps Idle (startDownload ino i) :=
  startKeeps (getAttrIdle _ _ _) (getSizeIdle _) sendIdle (fun _ => setInodeIdle ino fun _ => ⟨rfl,rfl,rfl⟩) i

theorem clearedContent {flags : Flags} {m : Mount Call} {entry : Entry} {ino : Ino}
    (other : entry.kind = .reg → flags.trunc = true → entry.ino ≠ ino) :
    ((cleared flags m entry).vol.nodes ino).content = (m.vol.nodes ino).content := by
  unfold cleared
  split
  · rename_i hit
    simp [Mount.setContent,Volume.setNode,(other hit.1 hit.2).symm]
  · rfl

theorem openFlagsTrunc (cached : Bool) (flags : Flags) : (openFlags cached flags).trunc = flags.trunc := by
  unfold openFlags
  split <;> rfl

theorem openFlagsWrites (cached : Bool) (flags : Flags) :
    (openFlags cached flags).access.writes = flags.access.writes := by
  unfold openFlags
  split
  · rename_i hit
    rw [hit.2]
    rfl
  · rfl

theorem reopenReg {c : Call} {slot : Slot} {flags : Flags} {e : Env Call} {m : Mount Call} {f r m'}
    (known : m.file slot = some f) (writes : flags.access.writes = true)
    (ok : reopen c slot flags e m = (.ok r,m')) : f.entry.kind = .reg := by
  have notRead : flags.access ≠ .read := by
    intro read
    rw [read] at writes
    cases writes
  rcases syscallCases c _ e m with ⟨err,failed⟩ | ⟨_,_,_,done,_⟩
  · rw [reopen,failed] at ok
    cases ok
  · simp only [known,openEntry] at done
    cases kind : f.entry.kind <;> simp [kind,notRead] at done ⊢

inductive OpenRan (i : Inode) (flags : Flags) (d d' : State) : Prop where
  | failed (replies : ∃ err, d'.replies = [.err (some err)]) (same : Untouched d d')
  | opened {f k} (file : (d.mount i.side).file i.slot = some f) (new : (d.mount i.side).next ≤ k)
      (kind : flags.access.writes = true → f.entry.kind = .reg)
      (replies : d'.replies = [.opened ⟨i.side,.fd k⟩])
      (now : (d'.mount i.side).file (.fd k) =
        some ⟨f.entry,f.dentry,(openFlags d.conf.cached flags).access⟩)
      (same : ∀ side ino, (side = i.side → f.entry.kind = .reg → flags.trunc = true → f.entry.ino ≠ ino) →
        ((d'.mount side).vol.nodes ino).content = ((d.mount side).vol.nodes ino).content)
      (cut : flags.trunc = true → f.entry.kind = .reg →
        ((d'.mount i.side).vol.nodes f.entry.ino).content = [])

def IdSame (d d' : State) : Prop := d'.id = d.id

instance : IsPreorder State IdSame where
  refl _ := rfl
  trans _ _ _ one two := Eq.trans two one

theorem sysFsSame {α : Type} (p : Sys Call α) : Prog.Keeps IdSame (sys .fs p) := by
  intro e d a d' ok
  rw [(sysSome ok).2]
  rfl

theorem setInodeSame (ref : Ref) (f : Inode → Inode) : Prog.Keeps IdSame (setInode ref f) :=
  keepsModify fun d => by cases ref <;> rfl

theorem replySame (r : Reply) : Prog.Keeps IdSame (reply r) := keepsModify fun _ => rfl

theorem sendSame (m : Message) : Prog.Keeps IdSame (send m) := keepsModify fun _ => rfl

theorem startSame (ino : Ref) (inode : Inode) : Prog.Keeps IdSame (startDownload ino inode) :=
  startKeeps (sysFsSame _) (sysFsSame _) sendSame (fun _ => setInodeSame ino _) inode

theorem startSlot {ino : Ref} {i : Inode} {e : Env Call} {d w : State} {a}
    (ok : Prog.onlyIf (i.needsDownload = true) (startDownload ino i) e d = some (a,w))
    (old : ∀ k, i.fd = .fd k → k < d.fs.next) :
    (w.mount i.side).file i.slot = (d.mount i.side).file i.slot := by
  cases which : i.isId with
  | true =>
    simp only [Inode.side,Inode.slot,which,if_true,State.mount]
    rw [keepsOnlyIf (startSame ino i) e d _ w ok]
  | false =>
    have idle : Idle d w := keepsOnlyIf (startIdle ino i) e d _ w ok
    simp only [Inode.side,Inode.slot,which,State.mount,Bool.false_eq_true,if_false]
    cases slot : i.fd with
    | fd k => exact idle.steady.fs.same k (old k slot)
    | closed | enoent => rfl

@[simp] theorem setMountSelf (d : State) (side : Side) : d.setMount side (d.mount side) = d := by
  cases side <;> rfl
@[simp] theorem setMountReplies (d : State) (side : Side) (m : Mount Call) :
    (d.setMount side m).replies = d.replies := by cases side <;> rfl
@[simp] theorem setMountOther {side other : Side} (apart : other ≠ side) (d : State) (m : Mount Call) :
    (d.setMount side m).mount other = d.mount other := by
  cases side <;> cases other <;> first | rfl | contradiction
@[simp] theorem setInodeMount (d : State) (ref : Ref) (f : Inode → Inode) (side : Side) :
    (d.setInode ref f).mount side = d.mount side := by cases ref <;> cases side <;> rfl
@[simp] theorem setInodeReplies (d : State) (ref : Ref) (f : Inode → Inode) :
    (d.setInode ref f).replies = d.replies := by cases ref <;> rfl
@[simp] theorem repliesMount (d : State) (replies : List Reply) (side : Side) :
    State.mount {d with replies := replies} side = d.mount side := by cases side <;> rfl

theorem openSome {ino : Ref} {flags : Flags} {e : Env Call} {d d' : State} {i} (fresh : d.replies = [])
    (known : d.inode ino = some i) (old : ∀ k, i.fd = .fd k → k < d.fs.next)
    (ok : sfsOpen ino flags e d = some ((),d')) : Steady d d' ∧ OpenRan i flags d d' := by
  obtain ⟨i',u,first,body⟩ := bindSome ok
  obtain ⟨rfl,known',_⟩ := getInodeSome first
  cases known.symm.trans known'
  obtain ⟨_,_,got,body⟩ := bindSome body
  cases Option.some.inj got
  obtain ⟨_,w,started,rest⟩ := bindSome body
  have idle : Idle u w := keepsOnlyIf (startIdle ino i) e u _ w started
  obtain ⟨steady,still,silent⟩ := idle
  have mute : w.replies = [] := silent.trans fresh
  have slot := startSlot started old
  have next : (u.mount i.side).next ≤ (w.mount i.side).next := by
    cases i.side with
    | fs => exact steady.fs.next
    | id => exact steady.id.next
  obtain ⟨r,x,opened,tail⟩ := bindSome rest
  have moved : Steady w x := sysSteady i.side (reopenHeld _ _ _) e w r x opened
  obtain ⟨rfl,rfl⟩ := sysSome opened
  rcases reopenCases .openHandle i.slot (openFlags u.conf.cached flags) e (w.mount i.side) with
    ⟨err,same⟩ | ⟨f,there,same⟩
  · simp only [same,setMountSelf] at tail
    have ends := trans_of Untouched still (replyUntouched _ e w _ _ tail)
    refine ⟨trans_of Steady steady (replySteady _ e w _ _ tail),.failed ⟨err,?_⟩ ends⟩
    rw [replySome tail,mute]
    rfl
  · simp only [same] at tail moved
    obtain ⟨_,z,counted,replied⟩ := bindSome tail
    have more : Steady _ z := setInodeSteady ino (by exact fun _ => ⟨rfl,rfl,rfl⟩) e _ _ z counted
    refine ⟨trans_of Steady steady (trans_of Steady moved (trans_of Steady more
      (replySteady _ e z _ _ replied))),?_⟩
    cases Option.some.inj counted
    rw [replySome replied]
    have kind : flags.access.writes = true → f.entry.kind = .reg := fun writes =>
      reopenReg there ((openFlagsWrites u.conf.cached flags).trans writes) same
    refine .opened (slot ▸ there) next kind (by simp [mute]) ?_ (fun side ino apart => ?_) fun cut reg => ?_
    · rw [repliesMount,setInodeMount,setMountMount]
      have fits := clearedFiles (openFlags u.conf.cached flags) (w.mount i.side) f.entry
      rw [← fits.2]
      exact fileInstall _ _
    · rw [← still side ino,repliesMount,setInodeMount]
      by_cases here : side = i.side
      · subst here
        rw [setMountMount]
        exact clearedContent fun reg cut => apart rfl reg (openFlagsTrunc u.conf.cached flags ▸ cut)
      · rw [setMountOther here]
    · rw [repliesMount,setInodeMount,setMountMount]
      have both : f.entry.kind = .reg ∧ (openFlags u.conf.cached flags).trunc = true :=
        ⟨reg,(openFlagsTrunc u.conf.cached flags).trans cut⟩
      simp [cleared,both,Mount.install,Mount.setContent,Volume.setNode]

theorem pwriteHeld (c : Call) (slot : Slot) (off : Nat) (data : Bytes) (e : Env Call) (m : Mount Call) :
    Held m.next m (pwriteAt c slot off data e m).2 := by
  rcases pwriteAtCases c slot off data e m with ⟨err,same⟩ | ⟨f,_,_,same⟩ <;> rw [same]
  · exact refl_of (Held m.next) m
  · exact sameHeld rfl rfl

theorem setContentOther (m : Mount Call) {ino other : Ino} (content : Bytes) (apart : ino ≠ other) :
    ((m.setContent ino content).vol.nodes other).content = (m.vol.nodes other).content := by
  simp [Mount.setContent,Volume.setNode,apart.symm]

structure Changed (side : Side) (ino : Ino) (content : Bytes) (d d' : State) : Prop where
  here : ((d'.mount side).vol.nodes ino).content = content
  others : ∀ side' ino', (side' = side → ino ≠ ino') →
    ((d'.mount side').vol.nodes ino').content = ((d.mount side').vol.nodes ino').content

theorem setContentChanged (d : State) (side : Side) (ino : Ino) (content : Bytes) :
    Changed side ino content d (d.setMount side ((d.mount side).setContent ino content)) := by
  refine ⟨?_,fun side' ino' apart => ?_⟩
  · rw [setMountMount]
    simp [Mount.setContent,Volume.setNode]
  · by_cases hit : side' = side
    · subst hit
      rw [setMountMount]
      exact setContentOther _ content (apart rfl)
    · rw [setMountOther hit]

theorem changedThen {side : Side} {ino : Ino} {content : Bytes} {d d1 d' : State}
    (changed : Changed side ino content d d1) (same : Untouched d1 d') : Changed side ino content d d' :=
  ⟨(same side ino).trans changed.here,
    fun side' ino' apart => (same side' ino').trans (changed.others side' ino' apart)⟩

inductive WriteRan (ino : Ref) (i : Inode) (fh : Handle) (off : Nat) (data : Bytes) (res : Nat)
    (d d' : State) : Prop where
  | failed (replies : ∃ err, d'.replies = [.err (some err)]) (same : Untouched d d') (steady : Steady d d')
  | written {g} (file : (d.mount fh.side).file fh.fd = some g) (writes : g.access.writes = true)
      (replies : d'.replies = [.written res])
      (changed : Changed fh.side g.entry.ino (((d.mount fh.side).vol.nodes g.entry.ino).content.pwrite
        (landing (d.mount fh.side) fh.fd off) (data.take res)) d d')
      (fs : Held d.fs.next d.fs d'.fs) (id : Held d.id.next d.id d'.id)
      (table : d'.inodes = if i.isId = true ∧ i.size < off + res then
        (d.setInode ino fun i => {i with size := off + res}).inodes else d.inodes)

theorem writeSome {ino : Ref} {fh : Handle} {off : Nat} {data : Bytes} {e : Env Call} {d d' : State} {i}
    (fresh : d.replies = []) (known : d.inode ino = some i)
    (ok : sfsWriteBuf ino fh off data e d = some ((),d')) :
    WriteRan ino i fh off data (min (e.count .write) data.length) d d' := by
  obtain ⟨i',u,first,body⟩ := bindSome ok
  obtain ⟨rfl,known',_⟩ := getInodeSome first
  cases known.symm.trans known'
  obtain ⟨r,x,called,tail⟩ := bindSome body
  have moved : Steady u x := sysSteady fh.side (fun e m => pwriteHeld _ _ _ _ e m) e u r x called
  obtain ⟨rfl,rfl⟩ := sysSome called
  rcases pwriteAtCases .write fh.fd (landing (u.mount fh.side) fh.fd off) data e (u.mount fh.side) with
    ⟨err,same⟩ | ⟨g,file,writes,same⟩ <;> simp only [writeAt,same] at tail moved
  · rw [setMountSelf] at tail
    refine .failed ⟨err,?_⟩ (replyUntouched _ e u _ _ tail) (replySteady _ e u _ _ tail)
    rw [replySome tail,fresh]
    rfl
  · have changed := setContentChanged u fh.side g.entry.ino
      (((u.mount fh.side).vol.nodes g.entry.ino).content.pwrite (landing (u.mount fh.side) fh.fd off)
        (data.take (min (e.count .write) data.length)))
    obtain ⟨_,z,sized,replied⟩ := bindSome tail
    rw [replySome replied]
    unfold Prog.onlyIf at sized
    split at sized
    · rename_i grows
      cases Option.some.inj sized
      refine .written file writes (by simp [fresh]) (changedThen changed ?_) ?_ ?_ ?_
      · intro side ino
        rw [repliesMount,setInodeMount]
      · cases ino <;> exact moved.fs
      · cases ino <;> exact moved.id
      · rw [if_pos grows]
        cases ino <;> cases fh.side <;> rfl
    · rename_i stays
      cases Option.some.inj sized
      refine .written file writes (by simp [fresh]) (changedThen changed ?_) moved.fs moved.id ?_
      · intro side ino
        rw [repliesMount]
      · rw [if_neg stays]
        exact setMountInodes u fh.side _

def Handless (replies : List Reply) : Prop := ∀ n req, ∀ r ∈ replies, gripOf n req r = none

def target (i : Inode) : Option Handle → Handle
  | some fh => fh
  | none => ⟨i.side,i.slot⟩

inductive SetattrRan (i : Inode) (size : Nat) (fi : Option Handle) (d d' : State) : Prop where
  | failed (same : Untouched d d')
  | cut {g} (file : (d.mount (target i fi).side).file (target i fi).fd = some g)
      (writes : fi.isSome = true → g.access.writes = true)
      (changed : Changed (target i fi).side g.entry.ino
        (((d.mount (target i fi).side).vol.nodes g.entry.ino).content.truncate size) d d')

theorem getattrRan {ino : Ref} {e : Env Call} {d d' : State} (fresh : d.replies = [])
    (ok : sfsGetattr ino e d = some ((),d')) : Steady d d' ∧ Untouched d d' ∧ Handless d'.replies := by
  obtain ⟨i,u,first,body⟩ := bindSome ok
  obtain ⟨rfl,_,_⟩ := getInodeSome first
  obtain ⟨r,x,called,tail⟩ := bindSome body
  have moved : Steady u x := sysSteady i.side (fun e m => fstatHeld _ _ e m) e u r x called
  have same : Untouched u x := quietUntouched i.side (fstatQuiet _ _) e u r x called
  have mute : x.replies = [] := (Service.sysMute i.side _ e u r x called).trans fresh
  have ends : ∃ a, reply a e x = some ((),d') ∧ ∀ n req, gripOf n req a = none := by
    cases r with
    | error err => exact ⟨_,tail,fun _ _ => rfl⟩
    | ok st => exact ⟨_,tail,fun _ _ => rfl⟩
  obtain ⟨a,replied,none⟩ := ends
  refine ⟨trans_of Steady moved (replySteady a e x _ _ replied),
    trans_of Untouched same (replyUntouched a e x _ _ replied),?_⟩
  rw [replySome replied,mute]
  simpa [Handless] using none

def truncateCall (i : Inode) (size : Nat) (fi : Option Handle) : Sys Call (Except Errno Unit) := match fi with
  | some fh => ftruncate .truncate fh.fd size
  | none => truncateAt .truncate i.slot size

theorem truncateCopyEq (i : Inode) (size : Nat) (fi : Option Handle) :
    truncateCopy i size fi = sys (target i fi).side (truncateCall i size fi) := by cases fi <;> rfl

theorem truncateCallCases (i : Inode) (size : Nat) (fi : Option Handle) (e : Env Call) (m : Mount Call) :
    (∃ err, truncateCall i size fi e m = (.error err,m)) ∨
    ∃ g, m.file (target i fi).fd = some g ∧ (fi.isSome = true → g.access.writes = true) ∧
      truncateCall i size fi e m =
        (.ok (),m.setContent g.entry.ino ((m.vol.nodes g.entry.ino).content.truncate size)) := by
  cases fi with
  | some fh =>
    rcases ftruncateCases .truncate fh.fd size e m with failed | ⟨g,file,writes,same⟩
    · exact .inl failed
    · exact .inr ⟨g,file,fun _ => writes,same⟩
  | none =>
    rcases truncateAtCases .truncate i.slot size e m with failed | ⟨g,file,same⟩
    · exact .inl failed
    · exact .inr ⟨g,file,(fun wrong => by cases wrong),same⟩

theorem truncateRan {i : Inode} {size : Nat} {fi : Option Handle} {e : Env Call} {d d' : State} {r}
    (ok : truncateCopy i size fi e d = some (r,d')) :
    Steady d d' ∧ d'.replies = d.replies ∧ SetattrRan i size fi d d' := by
  rw [truncateCopyEq] at ok
  have mute := Service.sysMute _ _ e d r d' ok
  obtain ⟨_,rfl⟩ := sysSome ok
  rcases truncateCallCases i size fi e (d.mount (target i fi).side) with ⟨err,same⟩ |
    ⟨g,file,writes,same⟩ <;> rw [same] at mute ⊢
  · rw [setMountSelf]
    exact ⟨refl_of Steady d,rfl,.failed (refl_of Untouched d)⟩
  · refine ⟨?_,mute,.cut file writes (setContentChanged d _ _ _)⟩
    cases (target i fi).side with
    | fs => exact steadyTable rfl (sameHeld rfl rfl) (refl_of (Held d.id.next) d.id)
    | id => exact steadyTable rfl (refl_of (Held d.fs.next) d.fs) (sameHeld rfl rfl)

theorem setattrThen {i : Inode} {size : Nat} {fi : Option Handle} {d d1 d' : State}
    (ran : SetattrRan i size fi d d1) (same : Untouched d1 d') : SetattrRan i size fi d d' := by
  cases ran with
  | failed still => exact .failed (trans_of Untouched still same)
  | cut file writes changed => exact .cut file writes (changedThen changed same)

theorem setattrSome {ino : Ref} {size : Nat} {fi : Option Handle} {e : Env Call} {d d' : State} {i}
    (fresh : d.replies = []) (known : d.inode ino = some i)
    (ok : sfsSetattr ino size fi e d = some ((),d')) :
    Steady d d' ∧ Handless d'.replies ∧ SetattrRan i size fi d d' := by
  obtain ⟨i',u,first,body⟩ := bindSome ok
  obtain ⟨rfl,known',_⟩ := getInodeSome first
  cases known.symm.trans known'
  obtain ⟨r,x,called,tail⟩ := bindSome body
  obtain ⟨steady,mute,ran⟩ := truncateRan called
  cases r with
  | error err =>
    refine ⟨trans_of Steady steady (replySteady _ e x _ _ tail),?_,
      setattrThen ran (replyUntouched _ e x _ _ tail)⟩
    rw [replySome tail,mute,fresh]
    simp [Handless,gripOf]
  | ok _ =>
    obtain ⟨more,same,none⟩ := getattrRan (mute.trans fresh) tail
    exact ⟨trans_of Steady steady more,none,setattrThen ran same⟩

theorem setAttrContent (m : Mount Call) (ino : Ino) (name : Bytes) (value : Option Bytes) (n : Ino) :
    ((m.setAttr ino name value).vol.nodes n).content = (m.vol.nodes n).content := by
  by_cases here : n = ino <;> simp [Mount.setAttr,Volume.setNode,here]

theorem updateSizeHeld (fd : Slot) (size : Nat) (e : Env Call) (m : Mount Call) :
    Held m.next m (f3UpdateSizeXattr fd size e m).2 := by
  rcases updateSizeCases fd size e m with same | ⟨f,_,n,which,same⟩ <;> rw [same]
  · exact refl_of (Held m.next) m
  · rcases which with rfl | rfl
    · exact openedHeld m _ e
    · let m1 := m.install ⟨f.entry,f.dentry,.read⟩
      have set : Held m.next m1 (m1.setAttr f.entry.ino f3Size (some (digits size))) := sameHeld rfl rfl
      exact trans_of (Held m.next) (installHeld (Nat.le_refl _) _)
        (trans_of (Held m.next) set (closeHeld (Nat.le_refl _) e _))

theorem updateSizeContent (fd : Slot) (size : Nat) (e : Env Call) (m : Mount Call) (ino : Ino) :
    ((f3UpdateSizeXattr fd size e m).2.vol.nodes ino).content = (m.vol.nodes ino).content := by
  rcases updateSizeCases fd size e m with same | ⟨f,_,n,which,same⟩ <;> rw [same]
  rw [(closeQuiet (.fd m.next) e n).nodes]
  rcases which with rfl | rfl
  · rfl
  · exact setAttrContent _ _ _ _ ino

theorem updateSizeSets {fd : Slot} {size : Nat} {e : Env Call} {m : Mount Call} {f}
    (known : m.file fd = some f) (reg : f.entry.kind = .reg) (opens : e.fault .sizeOpen = none)
    (sets : e.fault .sizeSet = none) :
    ((f3UpdateSizeXattr fd size e m).2.vol.nodes f.entry.ino).xattr f3Size = some (digits size) := by
  simp only [f3UpdateSizeXattr,bind,fullFdOpens known reg opens]
  rw [(closeQuiet (.fd m.next) e _).nodes]
  have full : fullFile (m.install ⟨f.entry,f.dentry,.read⟩) (.fd m.next) =
      .ok ⟨f.entry,f.dentry,.read⟩ := by
    simp [fullFile,attrFile,fileInstall,reg]
  simp [fsetxattr,syscall,sets,full,bind,Except.bind,setAttrXattr]

theorem heldAges {m m' : Mount Call} (held : Held m.next m m') : Ages m m' :=
  ⟨held.next,fun old known => (held.same _ old).symm.trans known⟩

structure ReleaseRan (i : Inode) (fh : Handle) (e : Env Call) (d d' : State) : Prop where
  replies : d'.replies = [.err none]
  same : Untouched d d'
  cells : ∀ {a c}, d.inodes.atAddr a = some c → c.value.Live →
    ∃ v, d'.inodes.atAddr a = some {c with value := v} ∧ Same c.value v
  files : ∀ {side slot g}, (side = fh.side → slot ≠ fh.fd) →
    (d.mount side).file slot = some g → (d'.mount side).file slot = some g
  ages : Ages d.fs d'.fs
  published : ∀ {f}, d.fs.file i.fd = some f → f.entry.kind = .reg →
    mayWrite (d.mount fh.side) fh.fd = true → e.fault .sizeOpen = none → e.fault .sizeSet = none →
    (d'.fs.vol.nodes f.entry.ino).xattr f3Size = some (digits i.size)

theorem releaseSome {ino : Ref} {fh : Handle} {e : Env Call} {d d' : State} {i} (fresh : d.replies = [])
    (known : d.inode ino = some i) (ok : sfsRelease ino fh e d = some ((),d')) : ReleaseRan i fh e d d' := by
  obtain ⟨i',u,first,body⟩ := bindSome ok
  obtain ⟨rfl,known',_⟩ := getInodeSome first
  cases known.symm.trans known'
  obtain ⟨_,_,got,body⟩ := bindSome body
  cases Option.some.inj got
  obtain ⟨_,v,sized,rest⟩ := bindSome body
  have sizes : Idle u v :=
    keepsOnlyIf (sysIdle .fs (updateSizeHeld i.fd i.size) (updateSizeContent i.fd i.size)) e u _ v sized
  have named : Named f3Size v d' := keepsBind (keepsOnlyIf (keepsBind
      (quietNamed .fs (f3GetAttrQuiet _ _ _)) fun _ => sendNamed _)) (fun _ =>
    keepsBind (setInodeNamed ino _) fun _ =>
    keepsBind (quietNamed fh.side (closeQuiet _)) fun _ => replyNamed _) e v _ d' rest
  obtain ⟨_,w,told,body⟩ := bindSome rest
  obtain ⟨_,x,counted,body⟩ := bindSome body
  have tells : Idle v w := keepsOnlyIf (keepsBind (getAttrIdle f3Filepath 4096 i.fd) fun _ =>
    sendIdle _) e v _ w told
  have counts : Idle w x := setInodeIdle ino (by exact fun _ => ⟨rfl,rfl,rfl⟩) e w _ x counted
  have idle : Idle u x := trans_of Idle sizes (trans_of Idle tells counts)
  obtain ⟨_,y,closed,replied⟩ := bindSome body
  obtain ⟨_,isY⟩ := sysSome closed
  have isD := replySome replied
  refine ⟨?_,?_,?_,?_,?_,?_⟩
  · rw [isD,isY]
    simp [idle.mute,fresh]
  · have shut : Untouched x y := quietUntouched fh.side (closeQuiet _) e x _ y closed
    exact trans_of Untouched idle.same (trans_of Untouched shut (replyUntouched _ e y _ _ replied))
  · intro a c here live
    rw [isD,isY]
    simpa using idle.steady.cells here live
  · intro side slot g apart file
    have held : (x.mount side).file slot = some g := by
      cases side with
      | fs => exact heldFile idle.steady.fs file
      | id => exact heldFile idle.steady.id file
    rw [isD,isY,repliesMount]
    by_cases hit : side = fh.side
    · subst hit
      rw [setMountMount,closeFile (apart rfl)]
      exact held
    · rw [setMountOther hit]
      exact held
  · have shut : Ages x.fs y.fs := by
      rw [isY]
      cases fh.side with
      | fs => exact (closeQuiet fh.fd e x.fs).ages
      | id => exact refl_of Ages x.fs
    rw [isD]
    exact trans_of Ages (heldAges idle.steady.fs) shut
  · intro f seat reg writes opens sets
    rw [Prog.onlyIf,if_pos writes] at sized
    rw [named.fs.xattr,(sysSome sized).2]
    exact updateSizeSets seat reg opens sets

end F3.Driver.Handles
