import F3.DriverSeats
import F3.DriverTrees

/-! A file after its conversion. removexattr of user.f3.id moves the ID copy of one node to
the shared tree; from then on every node is to read the file there. -/
namespace F3.Driver.Converted
open Lib (Bytes Arena Cell Prog Act Tree)
open Lib.Posix
open Lib.Run (run Meets)
open Choice (Cluster Event clusterStep idName)
open Handles (asked clusterAsked setHere lookupCells target)

structure Hold where
  node : Nat
  file : Ino
  fh : Handle
  deriving DecidableEq, Repr

structure Session where
  cluster : Cluster
  holds : List Hold

def holdOf (n : Nat) (d d' : State) : Req → Reply → Option Hold
  | .openFile (.node a) _,.opened fh => (d.inodes.atAddr a).map fun c => ⟨n,c.key.1,fh⟩
  | .create _ _ _,.create x fh => x.ino.bind fun a => (d'.inodes.atAddr a).map fun c => ⟨n,c.key.1,fh⟩
  | _,_ => none

def taken (c c' : Cluster) : Event → List Hold
  | .on n (.request req _) => match c.nodes[n]?,c'.nodes[n]? with
      | some d,some d' => d'.replies.filterMap (holdOf n d d' req)
      | _,_ => []
  | _ => []

def kept (holds : List Hold) : Event → List Hold
  | .on n .restart => holds.filter fun h => h.node ≠ n
  | .on n (.request (.release _ fh) _) => holds.filter fun h => ¬ (h.node = n ∧ h.fh = fh)
  | _ => holds

def step (s : Session) (event : Event) : Option Session :=
  (clusterStep s.cluster event).map fun c => ⟨c,taken s.cluster c event ++ kept s.holds event⟩

def Plain (v : Volume Call) (x : Ino) : Prop := ∀ z ∈ v.tree.entries, z.2.ino = x → z.2.kind = .reg ∧
  ∀ up ∈ v.tree.find z.1.dropLast, ∀ name ∈ z.1.getLast?, idName v up name = false

instance (v x) : Decidable (Plain v x) := by unfold Plain; infer_instance

theorem plainName {v : Volume Call} {x : Ino} {p name up entry} (plain : Plain v x)
    (above : v.tree.find p = some up) (found : v.tree.find (p ++ [name]) = some entry)
    (isX : entry.ino = x) : entry.kind = .reg ∧ idName v up name = false := by
  obtain ⟨reg,names⟩ := plain (p ++ [name],entry) (Tree.foundMem.mp found) isX
  exact ⟨reg,names up (by simpa using above) name (by simp)⟩

theorem plainLess {v w : Volume Call} {x : Ino} (plain : Plain v x) (tree : w.tree = v.tree)
    (marks : ∀ ino, marked w ino = true → marked v ino = true) : Plain w x := by
  intro z mem isX
  rw [tree] at mem
  obtain ⟨reg,names⟩ := plain z mem isX
  refine ⟨reg,fun up above name last => ?_⟩
  rw [tree] at above
  have before := names up above name last
  simp only [idName,Bool.or_eq_false_iff] at before ⊢
  refine ⟨?_,before.2⟩
  cases now : marked w up.ino with
  | false => rfl
  | true => exact absurd (marks _ now) (by simp [before.1])

structure Own (x : Ino) (d : State) (c : Cell SrcId Inode) : Prop where
  old : ∀ k, c.value.fd = .fd k → k < d.fs.next
  file : ∀ f ∈ d.fs.file c.value.fd, f.entry.ino = c.key.1 ∧ (c.key.1 = x → f.entry.kind = .reg)

def Shared (x : Ino) (d : State) : Prop := ∀ c ∈ d.inodes.cells,
  Own x d c ∧ (c.key.1 = x → c.value.isId = false)

structure HoldOk (x : Ino) (d : State) (h : Hold) : Prop where
  side : h.fh.side = .fs
  old : ∀ k, h.fh.fd = .fd k → k < d.fs.next
  file : ∀ f ∈ d.fs.file h.fh.fd, f.entry = ⟨x,.reg⟩

structure Inv (x : Ino) (bytes : Bytes) (s : Session) : Prop where
  content : (s.cluster.shared.nodes x).content = bytes
  names : Plain s.cluster.shared x
  tables : ∀ d ∈ s.cluster.nodes, Shared x d
  holds : ∀ h ∈ s.holds, h.file = x → ∃ d, s.cluster.nodes[h.node]? = some d ∧ HoldOk x d h

def SameCopy (i j : Inode) : Prop := j.fd = i.fd ∧ j.isId = i.isId

instance : IsPreorder Inode SameCopy where
  refl _ := ⟨rfl,rfl⟩
  trans _ _ _ one two := ⟨two.1.trans one.1,two.2.trans one.2⟩

theorem minorSameCopy : Minor SameCopy := fun _ _ _ _ _ => ⟨rfl,rfl⟩

structure Reads (x : Ino) (d d' : State) : Prop where
  alike : Alike f3Id d.fs d'.fs
  content : (d'.fs.vol.nodes x).content = (d.fs.vol.nodes x).content
  ages : Ages d.fs d'.fs
  table : Plain d.fs.vol x → Shared x d → Shared x d'

section Frames
variable {x : Ino} {d d' : State}

theorem plainAlike {m m' : Mount Call} (alike : Alike f3Id m m') (plain : Plain m.vol x) : Plain m'.vol x :=
  plainLess plain alike.tree fun ino yes => (markedAlike alike ino).symm.trans yes

instance : IsPreorder State (Reads x) where
  refl d := ⟨refl_of (Alike f3Id) d.fs,rfl,refl_of Ages d.fs,fun _ shared => shared⟩
  trans _ _ _ one two := ⟨trans_of (Alike f3Id) one.alike two.alike,two.content.trans one.content,
    trans_of Ages one.ages two.ages,
    fun plain shared => two.table (plainAlike one.alike plain) (one.table plain shared)⟩

theorem ownAges {b c : Cell SrcId Inode} (own : Own x d b) (ages : Ages d.fs d'.fs) (key : b.key = c.key)
    (fd : c.value.fd = b.value.fd) : Own x d' c := by
  refine ⟨fun k isK => Nat.lt_of_lt_of_le (own.old k (fd ▸ isK)) ages.next,fun f open_ => ?_⟩
  obtain ⟨k,isK⟩ := fdOfFile open_
  rw [isK] at open_
  have before := ages.old (own.old k (fd ▸ isK)) open_
  rw [← isK,fd] at before
  rw [← key]
  exact own.file f before

theorem tabledReads (named : Named f3Id d d') (table : Tabled SameCopy d d') (ages : Ages d.fs d'.fs)
    (content : (d'.fs.vol.nodes x).content = (d.fs.vol.nodes x).content) : Reads x d d' := by
  refine ⟨named.fs,content,ages,fun _ shared c mem => ?_⟩
  obtain ⟨b,old,key,fd,isId⟩ := table c mem
  obtain ⟨own,plain⟩ := shared b old
  exact ⟨ownAges own ages key fd,fun isX => isId.trans (plain (key ▸ isX))⟩

theorem isNewSound {e : Env Call} {m : Mount Call} {dir : Inode} {name : FileName} {up p}
    (at_ : m.dirAt dir.fd = .ok (up,p)) (plain : idName m.vol up name = false) :
    isNewHere e m dir name = false := by
  obtain ⟨f,known,rfl,_,_⟩ := dirAtFile at_
  have quiet := openPathQuiet .lookupOpen dir.fd name e m
  have still := heldFile (openPathHeld .lookupOpen dir.fd name e m) known
  simp only [idName,Bool.or_eq_false_iff] at plain
  simp only [isNewHere,Bool.or_eq_false_iff]
  refine ⟨?_,plain.2⟩
  cases yes : (f3IsId .lookup dir.fd e (openPath .lookupOpen dir.fd name e m).2).1 with
  | false => rfl
  | true =>
    obtain ⟨g,there,marks⟩ := f3IsIdSound yes
    cases still.symm.trans there
    have same : marked m.vol f.entry.ino = true := by
      rw [← marks]
      simp only [marked,quiet.nodes]
    exact absurd same (by simp [plain.1])

theorem lookupReads (parent : Ref) (name : FileName) : Prog.Keeps (Reads x) (doLookup parent name) := by
  intro e d r d' ok
  have quiet := (doLookupLooks parent name e d r d' ok).fs
  refine ⟨quiet.alike f3Id,by rw [quiet.nodes],quiet.ages,fun plain shared c mem => ?_⟩
  cases lookupCells ok c mem with
  | kept old key fd isId =>
    obtain ⟨own,keeps⟩ := shared _ old
    exact ⟨ownAges own quiet.ages key fd,fun isX => isId.trans (keeps (key ▸ isX))⟩
  | built known at_ found number fd old file isId =>
    obtain ⟨_,_,_,_,above⟩ := dirAtFile at_
    refine ⟨⟨fun k isK => ?_,fun f open_ => ?_⟩,fun isX => ?_⟩
    · cases fd.symm.trans isK
      exact old
    · rw [file f open_]
      exact ⟨number,fun isX => (plainName plain above found (number.trans isX)).1⟩
    · cases now : c.value.isId with
      | false => rfl
      | true =>
        have notNew := isNewSound (e := e) at_ (plainName plain above found (number.trans isX)).2
        rcases isId now with isNew | ⟨b,mem,key,isB⟩
        · exact absurd isNew (by simp [notNew])
        · exact absurd isB (by simp [(shared b mem).2 (key ▸ isX)])

def FsQuiet (d d' : State) : Prop := Quiet d.fs d'.fs

instance : IsPreorder State FsQuiet where
  refl d := refl_of Quiet d.fs
  trans _ _ _ one two := trans_of Quiet one two

theorem forgetOneQuiet (ino : Ref) (n : Nat) : Prog.Keeps FsQuiet (forgetOne ino n) := by
  refine forgetKeeps (Prog.keepsModify fun d => by cases ino <;> exact refl_of Quiet d.fs) (fun slot e u a u' ok => ?_)
    fun u _ => refl_of Quiet u.fs
  rw [(sysSome ok).2]
  exact closeQuiet slot e u.fs

theorem forgetOneReads (ino : Ref) (n : Nat) : Prog.Keeps (Reads x) (forgetOne ino n) := by
  intro e d a d' ok
  have quiet : Quiet d.fs d'.fs := forgetOneQuiet ino n e d a d' ok
  exact tabledReads (forgetOneNamed ino n e d a d' ok) (forgetOneTabled minorSameCopy ino n e d a d' ok)
    quiet.ages (by rw [quiet.nodes])

theorem replyReads (r : Reply) : Prog.Keeps (Reads x) (reply r) := by
  intro e d a d' ok
  rw [replySome ok]
  exact ⟨refl_of (Alike f3Id) d.fs,rfl,refl_of Ages d.fs,
    fun _ shared c mem => ⟨⟨(shared c mem).1.old,(shared c mem).1.file⟩,(shared c mem).2⟩⟩

theorem forgetAllReads (forgets : List (Ref × Nat)) : Prog.Keeps (Reads x) (forgetAll forgets) :=
  forgetAllKeeps forgetOneReads forgets

theorem readdirReads (ino : Ref) (stream : List DirEntry) (sofar : List (FileName × EntryParam)) :
    Prog.Keeps (Reads x) (readdirLoop ino stream sofar) := by
  induction stream generalizing sofar with
  | nil => exact replyReads _
  | cons z rest ih =>
    refine Prog.keepsBind (Prog.keepsWithin (lookupReads ino z.name)) fun r => ?_
    cases r with
    | error err => exact replyReads _
    | ok entry =>
      refine Prog.keepsIte (ih _) (Prog.keepsBind ?_ fun _ => replyReads _)
      unfold forgetEntry
      split
      · exact Prog.keepsAbort
      · exact forgetOneReads _ 1

theorem releaseReads {ino : Ref} {fh : Handle} {e : Env Call} (fresh : d.replies = [])
    (ok : sfsRelease ino fh e d = some ((),d')) : Reads x d d' := by
  obtain ⟨i,_,first,_⟩ := Prog.bindSome ok
  have ran := Handles.releaseSome fresh (getInodeSome first).2.1 ok
  exact tabledReads (releaseNamed (by decide) ino fh e d _ d' ok)
    (releaseTabled minorSameCopy ino fh e d _ d' ok) ran.ages (ran.same .fs x)

theorem getattrReads {ino : Ref} {e : Env Call} (fresh : d.replies = [])
    (ok : sfsGetattr ino e d = some ((),d')) : Reads x d d' := by
  obtain ⟨steady,same,_⟩ := Handles.getattrRan fresh ok
  exact tabledReads (namedData.getattr ino e d _ d' ok) ((tabledNames minorSameCopy).getattr ino e d _ d' ok)
    (Handles.heldAges steady.fs) (same .fs x)

def Hits (x : Ino) (d : State) (h : Handle) : Prop := h.side = .fs ∧ ∃ f ∈ d.fs.file h.fd, f.entry.ino = x
instance (x d h) : Decidable (Hits x d h) := by unfold Hits; infer_instance

theorem hitsFile {h : Handle} {f : File} (other : ¬ Hits x d h) (file : (d.mount h.side).file h.fd = some f)
    (side : h.side = .fs) : f.entry.ino ≠ x := by
  rw [side] at file
  exact fun isX => other ⟨side,f,file,isX⟩

theorem writeReads {ino : Ref} {fh : Handle} {off : Nat} {data : Bytes} {e : Env Call} (fresh : d.replies = [])
    (other : ¬ Hits x d fh) (ok : sfsWriteBuf ino fh off data e d = some ((),d')) : Reads x d d' := by
  obtain ⟨i,_,first,_⟩ := Prog.bindSome ok
  have named : Named f3Id d d' := namedData.write ino fh off data e d _ d' ok
  have tabled := (tabledNames minorSameCopy).write ino fh off data e d _ d' ok
  cases Handles.writeSome fresh (getInodeSome first).2.1 ok with
  | failed replies same steady => exact tabledReads named tabled (Handles.heldAges steady.fs) (same .fs x)
  | written file writes replies changed fs id table =>
    exact tabledReads named tabled (Handles.heldAges fs)
      (changed.others .fs x fun side => hitsFile other file side.symm)

theorem setattrReads {ino : Ref} {size : Nat} {fi : Option Handle} {e : Env Call} (fresh : d.replies = [])
    (other : ∀ i ∈ d.inode ino, ¬ Hits x d (target i fi))
    (ok : sfsSetattr ino size fi e d = some ((),d')) : Reads x d d' := by
  obtain ⟨i,_,first,_⟩ := Prog.bindSome ok
  have known := (getInodeSome first).2.1
  obtain ⟨steady,_,ran⟩ := Handles.setattrSome fresh known ok
  refine tabledReads (namedData.setattr ino size fi e d _ d' ok) ((tabledNames minorSameCopy).setattr ino size fi e d _ d' ok)
    (Handles.heldAges steady.fs) ?_
  cases ran with
  | failed same => exact same .fs x
  | cut file writes changed =>
    exact changed.others .fs x fun side => hitsFile (other i known) file side.symm

theorem openReads {a : Nat} {c} {flags : Flags} {e : Env Call} (fresh : d.replies = [])
    (here : d.inodes.atAddr a = some c) (own : Own x d c)
    (spares : flags.trunc = true → ¬ Hits x d ⟨c.value.side,c.value.slot⟩)
    (ok : sfsOpen (.node a) flags e d = some ((),d')) :
    Reads x d d' ∧ ((∃ err, d'.replies = [.err (some err)]) ∨ ∃ k f, d'.replies = [.opened ⟨c.value.side,.fd k⟩] ∧
      (d.mount c.value.side).file c.value.slot = some f ∧
      ∃ g, (d'.mount c.value.side).file (.fd k) = some g ∧ g.entry = f.entry) := by
  obtain ⟨steady,ran⟩ := Handles.openSome fresh (inodeNode here) own.old ok
  have named : Named f3Id d d' := openNamed (.node a) flags e d _ d' ok
  have tabled := openTabled minorSameCopy (.node a) flags e d _ d' ok
  have ages := Handles.heldAges steady.fs
  cases ran with
  | failed replies same => exact ⟨tabledReads named tabled ages (same .fs x),.inl replies⟩
  | opened file new kind replies now same cut =>
    refine ⟨tabledReads named tabled ages (same .fs x fun side _ trunc => ?_),
      .inr ⟨_,_,replies,file,_,now,rfl⟩⟩
    exact hitsFile (spares trunc) file side.symm

end Frames

section Steps
variable {x : Ino} {bytes : Bytes} {s s' : Session} {n : Nat} {d d' : State}

theorem holdAges {h : Hold} (ok : HoldOk x d h) (ages : Ages d.fs d'.fs) : HoldOk x d' h := by
  refine ⟨ok.side,fun k isK => Nat.lt_of_lt_of_le (ok.old k isK) ages.next,fun f open_ => ?_⟩
  obtain ⟨k,isK⟩ := fdOfFile open_
  rw [isK] at open_
  have before := ages.old (ok.old k isK) open_
  rw [← isK] at before
  exact ok.file f before

theorem holdsMoved {c : Cluster} {h : Hold} (node : c.nodes[n]? = some d)
    (ages : Ages (asked c d).fs d'.fs) (ok : ∃ u, c.nodes[h.node]? = some u ∧ HoldOk x u h) :
    ∃ u, (c.nodes.set n d')[h.node]? = some u ∧ HoldOk x u h := by
  obtain ⟨u,at_,ok⟩ := ok
  by_cases here : n = h.node
  · subst here
    obtain rfl : u = d := Option.some.inj (at_.symm.trans node)
    exact ⟨d',setHere d' node,@holdAges x (asked c u) d' h ⟨ok.side,ok.old,ok.file⟩ ages⟩
  · exact ⟨u,(List.getElem?_set_ne here).trans at_,ok⟩

theorem ownAsked {c : Cluster} {cell : Cell SrcId Inode} (own : Own x d cell) : Own x (asked c d) cell :=
  ⟨own.old,own.file⟩

theorem movedInv {holds : List Hold} (inv : Inv x bytes s) (node : s.cluster.nodes[n]? = some d)
    (reads : Reads x (asked s.cluster d) d')
    (each : ∀ h ∈ holds, h.file = x → h ∈ s.holds ∨ h.node = n ∧ HoldOk x d' h) :
    Inv x bytes ⟨⟨d'.fs.vol,s.cluster.nodes.set n d'⟩,holds⟩ := by
  have before : Shared x (asked s.cluster d) := fun c mem =>
    ⟨ownAsked (inv.tables d (List.mem_of_getElem? node) c mem).1,
      (inv.tables d (List.mem_of_getElem? node) c mem).2⟩
  refine ⟨reads.content.trans inv.content,plainAlike reads.alike inv.names,fun u mem => ?_,fun h mem isX => ?_⟩
  · rcases List.mem_or_eq_of_mem_set mem with old | rfl
    · exact inv.tables u old
    · exact reads.table inv.names before
  · rcases each h mem isX with old | ⟨rfl,ok⟩
    · exact holdsMoved node reads.ages (inv.holds h old isX)
    · exact ⟨d',setHere d' node,ok⟩

/- Requests that do not write to the shared copy of the file. -/
def Sparing (x : Ino) (s : Session) : Event → Prop
  | .join _ _ => True
  | .on _ .restart => True
  | .on n (.request req _) => ∀ d ∈ s.cluster.nodes[n]?, match req with
      | .lookup _ _ => True
      | .readdirplus _ _ => True
      | .forget _ _ => True
      | .forgetMulti _ => True
      | .getattr _ => True
      | .release _ _ => True
      | .openFile ino flags => ino ≠ .root ∧
          (flags.trunc = true → ∀ i ∈ d.inode ino, ¬ Hits x d ⟨i.side,i.slot⟩)
      | .writeBuf _ fh _ _ => ¬ Hits x d fh
      | .setattr ino _ fi => ∀ i ∈ d.inode ino, ¬ Hits x d (target i fi)
      | _ => False

theorem stepAsked {req : Req} {e : Env Call} (ok : step s (.on n (.request req e)) = some s') :
    ∃ d d', s.cluster.nodes[n]? = some d ∧ handle req e (asked s.cluster d) = some ((),d') ∧
      s' = ⟨⟨d'.fs.vol,s.cluster.nodes.set n d'⟩,
        d'.replies.filterMap (holdOf n d d' req) ++ kept s.holds (.on n (.request req e))⟩ := by
  obtain ⟨c,next,rfl⟩ := Option.map_eq_some_iff.mp ok
  obtain ⟨d,d',node,ran,rfl⟩ := clusterAsked next
  exact ⟨d,d',node,ran,by simp only [taken,node,setHere d' node]⟩

theorem noHold {req : Req} {replies : List Reply} (none : ∀ r, holdOf n d d' req r = none) :
    replies.filterMap (holdOf n d d' req) = [] :=
  List.filterMap_eq_nil_iff.mpr fun r _ => none r

theorem keptMem {event : Event} {h : Hold} {holds : List Hold} (mem : h ∈ kept holds event) : h ∈ holds := by
  unfold kept at mem
  split at mem
  · exact (List.mem_filter.mp mem).1
  · exact (List.mem_filter.mp mem).1
  · exact mem

theorem openInv {a : Nat} {flags : Flags} {e : Env Call} (inv : Inv x bytes s)
    (node : s.cluster.nodes[n]? = some d)
    (spares : flags.trunc = true → ∀ i ∈ d.inode (.node a), ¬ Hits x d ⟨i.side,i.slot⟩)
    (ok : sfsOpen (.node a) flags e (asked s.cluster d) = some ((),d')) :
    Inv x bytes ⟨⟨d'.fs.vol,s.cluster.nodes.set n d'⟩,
      d'.replies.filterMap (holdOf n d d' (.openFile (.node a) flags)) ++ s.holds⟩ := by
  obtain ⟨i,_,first,_⟩ := Prog.bindSome ok
  obtain ⟨c,here,rfl⟩ := Option.map_eq_some_iff.mp (getInodeSome first).2.1
  have here : d.inodes.atAddr a = some c := here
  obtain ⟨own,plain⟩ := inv.tables d (List.mem_of_getElem? node) c (Arena.atAddrMem here).1
  obtain ⟨reads,ran⟩ := @openReads x (asked s.cluster d) d' a c flags e rfl here (ownAsked own)
    (fun trunc => spares trunc c.value (inodeNode here)) ok
  refine movedInv inv node reads fun h mem isX => ?_
  rcases List.mem_append.mp mem with new | old
  · right
    rcases ran with ⟨err,replies⟩ | ⟨k,f,replies,file,g,now,entry⟩
    · simp [replies,holdOf] at new
    · obtain rfl : h = ⟨n,c.key.1,⟨c.value.side,.fd k⟩⟩ := by simpa [replies,holdOf,here] using new
      have notId := plain isX
      have side : c.value.side = .fs := by simp [Inode.side,notId]
      have slot : c.value.slot = c.value.fd := by simp [Inode.slot,notId]
      rw [side] at file now
      rw [slot] at file
      obtain ⟨number,reg⟩ := own.file f file
      refine ⟨rfl,side,fun j isJ => ?_,fun g' file' => ?_⟩
      · cases isJ
        exact fileOld now
      · cases now.symm.trans file'
        rw [entry]
        have isReg := reg isX
        have isX : c.key.1 = x := isX
        rw [← isX,← number,← isReg]
  · exact .inl old

theorem joinInv {opts : Options} {id : Volume Call} (inv : Inv x bytes s) :
    Inv x bytes ⟨⟨(boot opts s.cluster.shared id).fs.vol,s.cluster.nodes ++ [boot opts s.cluster.shared id]⟩,
      s.holds⟩ := by
  refine ⟨inv.content,plainLess inv.names rfl fun _ yes => yes,fun d mem => ?_,fun h mem isX => ?_⟩
  · rcases List.mem_append.mp mem with old | new
    · exact inv.tables d old
    · cases List.mem_singleton.mp new
      exact fun c none => absurd none List.not_mem_nil
  · obtain ⟨d,at_,ok⟩ := inv.holds h mem isX
    refine ⟨d,?_,ok⟩
    rw [List.getElem?_append_left (List.getElem?_eq_some_iff.mp at_).1]
    exact at_

theorem restartInv (inv : Inv x bytes s) :
    Inv x bytes ⟨⟨(restart (s.cluster.view d)).fs.vol,s.cluster.nodes.set n (restart (s.cluster.view d))⟩,
      s.holds.filter fun h => h.node ≠ n⟩ := by
  refine ⟨inv.content,plainLess inv.names rfl fun _ yes => yes,fun u mem => ?_,fun h mem isX => ?_⟩
  · rcases List.mem_or_eq_of_mem_set mem with old | rfl
    · exact inv.tables u old
    · exact fun c none => absurd none List.not_mem_nil
  · obtain ⟨old,other⟩ := List.mem_filter.mp mem
    obtain ⟨u,at_,ok⟩ := inv.holds h old isX
    exact ⟨u,(List.getElem?_set_ne (of_decide_eq_true other).symm).trans at_,ok⟩

theorem stepInv {event : Event} (inv : Inv x bytes s) (sparing : Sparing x s event)
    (ok : step s event = some s') : Inv x bytes s' := by
  cases event with
  | join opts id =>
    cases Option.some.inj ok
    exact joinInv inv
  | on n one =>
    cases one with
    | restart =>
      obtain ⟨c,next,rfl⟩ := Option.map_eq_some_iff.mp ok
      obtain ⟨d,node,last⟩ := Option.bind_eq_some_iff.mp next
      cases Option.some.inj last
      exact restartInv inv
    | request req e =>
      obtain ⟨d,d',node,ran,rfl⟩ := stepAsked ok
      have spares := sparing d node
      -- Of the requests of these runs only an open gives a handle out.
      have quiet : (∀ r, holdOf n d d' req r = none) → Reads x (asked s.cluster d) d' →
          Inv x bytes ⟨⟨d'.fs.vol,s.cluster.nodes.set n d'⟩,
            d'.replies.filterMap (holdOf n d d' req) ++ kept s.holds (.on n (.request req e))⟩ := by
        intro none reads
        rw [noHold none]
        exact movedInv inv node reads fun h mem _ => .inl (keptMem mem)
      cases req with
      | lookup parent name =>
        refine quiet (fun _ => rfl) (Prog.keepsBind (lookupReads parent name) (fun r => ?_) e _ _ _ ran)
        split <;> exact replyReads _
      | readdirplus ino stream =>
        exact quiet (fun _ => rfl) (Prog.keepsBind (getInodeKeeps ino)
          (fun _ => readdirReads ino stream []) e _ _ _ ran)
      | forget ino k =>
        exact quiet (fun _ => rfl) (Prog.keepsBind (forgetOneReads ino k) (fun _ => replyReads _) e _ _ _ ran)
      | forgetMulti forgets =>
        exact quiet (fun _ => rfl) (Prog.keepsBind (forgetAllReads forgets) (fun _ => replyReads _) e _ _ _ ran)
      | getattr ino => exact quiet (fun _ => rfl) (getattrReads rfl ran)
      | release ino fh => exact quiet (fun _ => rfl) (releaseReads rfl ran)
      | writeBuf ino fh off data => exact quiet (fun _ => rfl) (writeReads rfl spares ran)
      | setattr ino size fi => exact quiet (fun _ => rfl) (setattrReads rfl spares ran)
      | openFile ino flags =>
        cases ino with
        | root => exact absurd rfl spares.1
        | node a => exact openInv inv node spares.2 ran
      | _ => exact spares.elim

end Steps

structure Unmarked (ino : Ref) (f g : File) (d d' : State) : Prop where
  tree : d'.fs.vol.tree = d.fs.vol.tree
  marks : ∀ ino, marked d'.fs.vol ino = true → marked d.fs.vol ino = true
  content : (d'.fs.vol.nodes f.entry.ino).content =
    (d.fs.vol.nodes f.entry.ino).content.pwrite 0 (d.id.vol.nodes g.entry.ino).content
  ages : Ages d.fs d'.fs
  inodes : d'.inodes = (d.setInode ino fun i => {i with isId := false}).inodes

theorem removexattrSome {ino : Ref} {e : Env Call} {d d' : State} {i f g} (fresh : d.replies = [])
    (known : d.inode ino = some i) (fs : d.fs.file i.fd = some f) (id : d.id.file i.idFd = some g)
    (success : d'.replies.head? = some (.err none))
    (ok : sfsRemovexattr ino f3Id e d = some ((),d')) : Unmarked ino f g d d' := by
  obtain ⟨i',u,first,body⟩ := Prog.bindSome ok
  obtain ⟨rfl,known',filled⟩ := getInodeSome first
  cases known.symm.trans known'
  rw [Trees.bothRun] at body
  obtain ⟨_,v,told,rest⟩ := Prog.bindSome body
  cases Trees.firstEnds told
  obtain ⟨ret,w,converted,last⟩ := Prog.bindSome rest
  rw [replySome last,(Trees.convertStays converted).2.2] at success
  rcases removexattrAtCases (.removexattr .fs) i.fd f3Id e u.fs with ⟨err,failed⟩ | ⟨f',_,there,_,done⟩
  · simp [failed,Trees.firstError,fresh] at success
  rcases removexattrAtCases (.removexattr .id) i.idFd f3Id e u.id with ⟨err,failed⟩ | ⟨g',_,thereId,_,doneId⟩
  · simp [done,failed,Trees.firstError,fresh] at success
  cases fs.symm.trans there
  cases id.symm.trans thereId
  obtain rfl : ret = none := by simpa [done,doneId,Trees.firstError,fresh] using success
  rw [convertUnmarked,if_pos rfl] at converted
  simp only [done,doneId] at converted
  have again : State.inode {u with
      fs := u.fs.setAttr f.entry.ino f3Id none, id := u.id.setAttr g.entry.ino f3Id none,
      replies := u.replies ++ Trees.firstError (.ok ()) ++ Trees.firstError (.ok ())} ino = some i := by
    cases ino <;> exact known
  obtain ⟨fsEnd,inodes,_⟩ := makeIdFsSome (getInodeEq e again filled) fs id converted
  rw [replySome last]
  refine ⟨fsEnd.tree,fun number yes => ?_,?_,⟨fsEnd.ages.next,fsEnd.ages.old⟩,?_⟩
  · have attr : (w.fs.vol.nodes number).xattr f3Id =
        ((u.fs.setAttr f.entry.ino f3Id none).vol.nodes number).xattr f3Id := by
      rw [fsEnd.nodes]
      exact (setContentAlike _ _ _ f3Id).xattr number
    rw [setAttrXattr] at attr
    split at attr
    · simp [marked,attr] at yes
    · simpa [marked,attr] using yes
  · show (w.fs.vol.nodes f.entry.ino).content = _
    rw [fsEnd.nodes,setContentContent]
    simp only [Handles.setAttrContent]
  · rw [inodes]
    cases ino <;> rfl

def written (c : Cluster) (producer : Nat) (y : Ino) : Bytes := match c.nodes[producer]? with
  | some d => (d.id.vol.nodes y).content
  | none => []

def Whole (x : Ino) (bytes : Bytes) (c : Cluster) (n : Nat) (ino : Ref) : Prop :=
  ∃ d ∈ c.nodes[n]?, ∃ i ∈ d.inode ino, ∃ f ∈ d.fs.file i.fd, ∃ g ∈ d.id.file i.idFd,
    f.entry.ino = x ∧ (d.id.vol.nodes g.entry.ino).content = bytes

def OnlyId (x : Ino) (c : Cluster) (n : Nat) (ino : Ref) : Prop :=
  ∀ m < c.nodes.length, ∀ d ∈ c.nodes[m]?, ∀ b ∈ d.inodes.cells,
    b.key.1 = x → b.value.isId = true → m = n ∧ ino = .node b.addr

/- A node that has the whole file and the only inode that stands for an ID copy of it. -/
structure Ready (x : Ino) (producer : Nat) (y : Ino) (s : Session) (n : Nat) (ino : Ref) : Prop where
  copy : Whole x (written s.cluster producer y) s.cluster n ino
  covered : (s.cluster.shared.nodes x).content.length ≤ (written s.cluster producer y).length
  names : Plain s.cluster.shared x
  owns : ∀ d ∈ s.cluster.nodes, ∀ c ∈ d.inodes.cells, Own x d c
  only : OnlyId x s.cluster n ino
  holds : ∀ h ∈ s.holds, h.file = x → ∃ d ∈ s.cluster.nodes[h.node]?, HoldOk x d h

section Conversion
variable {x : Ino} {producer : Nat} {y : Ino} {s s' : Session} {n : Nat} {ino : Ref} {e : Env Call}

theorem convertedShared {d d' : State} {f g : File} (ended : Unmarked ino f g d d')
    (owns : ∀ c ∈ d.inodes.cells, Own x d c)
    (only : ∀ c ∈ d.inodes.cells, c.key.1 = x → c.value.isId = true → ino = .node c.addr) : Shared x d' := by
  have others : ∀ c ∈ d.inodes.cells, ino ≠ .node c.addr → Own x d' c ∧ (c.key.1 = x → c.value.isId = false) := by
    refine fun c mem other => ⟨ownAges (owns c mem) ended.ages rfl rfl,fun isX => ?_⟩
    cases isId : c.value.isId with
    | false => rfl
    | true => exact absurd (only c mem isX isId) other
  unfold Shared
  rw [ended.inodes]
  cases ino with
  | root => exact fun c mem => others c mem fun wrong => by cases wrong
  | node a =>
    refine Arena.allModify (fun c mem other => others c mem fun same => other (Ref.node.inj same).symm)
      fun c mem _ => ⟨ownAges (owns c mem) ended.ages rfl rfl,fun _ => rfl⟩

theorem convertInv (ready : Ready x producer y s n ino)
    (ok : step s (.on n (.request (.removexattr ino f3Id) e)) = some s')
    (success : ∃ d ∈ s'.cluster.nodes[n]?, d.replies.head? = some (.err none)) :
    Inv x (written s.cluster producer y) s' := by
  obtain ⟨d,d',node,ran,rfl⟩ := stepAsked ok
  obtain ⟨u,there,success⟩ := success
  cases (setHere d' node).symm.trans there
  obtain ⟨u,at_,i,known,f,fs,g,id,isX,whole⟩ := ready.copy
  obtain rfl : u = d := Option.some.inj (Eq.trans at_.symm node)
  have known : (asked s.cluster u).inode ino = some i := by cases ino <;> exact known
  have ended := removexattrSome rfl known fs id success ran
  rw [noHold fun _ => rfl]
  refine ⟨?_,plainLess ready.names ended.tree ended.marks,fun v mem => ?_,fun h mem isX => ?_⟩
  · have content := ended.content
    rw [isX] at content
    refine content.trans ?_
    show (s.cluster.shared.nodes x).content.pwrite 0 (u.id.vol.nodes g.entry.ino).content = _
    rw [whole]
    exact Bytes.pwriteCovers ready.covered
  · obtain ⟨m,here⟩ := List.mem_iff_getElem?.mp mem
    by_cases same : n = m
    · subst same
      cases (setHere d' node).symm.trans here
      refine convertedShared ended (fun c cell => ?_) fun c cell isX isId => ?_
      · exact ownAsked (ready.owns u (List.mem_of_getElem? node) c cell)
      · exact (ready.only n (List.getElem?_eq_some_iff.mp node).1 u node c cell isX isId).2
    · have here : s.cluster.nodes[m]? = some v := (List.getElem?_set_ne same).symm.trans here
      refine fun c cell => ⟨ready.owns v (List.mem_of_getElem? here) c cell,fun isX => ?_⟩
      cases isId : c.value.isId with
      | false => rfl
      | true =>
        exact absurd (ready.only m (List.getElem?_eq_some_iff.mp here).1 v here c cell isX isId).1.symm same
  · exact holdsMoved node ended.ages (ready.holds h mem isX)

theorem doReadBack {fh : Handle} {data : Bytes} {size off : Nat} {out : Service.Outside} {t : Service.Desk}
    (side : fh.side = .fs) (quiet : out.fault .readData = none)
    (read : t.driver.fs.pread fh.fd off size = .ok (data,t.driver.fs)) :
    ∃ t', Service.doRead size off fh out t = some ((),t') ∧ t'.answers = t.answers ++ [.data data] := by
  have called : Service.call .readData fh.side (fun m => m.pread fh.fd off size) out t = some (.ok data,t) := by
    simp only [Service.call,quiet,side,State.mount,read,State.setMount]
  unfold Service.doRead
  rw [Prog.bindEq called]
  exact ⟨_,rfl,rfl⟩

theorem readBack {d : State} {h : Hold} {bytes : Bytes} {ref : Ref} {size off : Nat} {out : Service.Outside} {f : File}
    (ok : HoldOk x d h) (content : (d.fs.vol.nodes x).content = bytes) (known : Service.Known d ref)
    (quiet : out.fault .readData = none) (file : d.fs.file h.fh.fd = some f) (reads : f.access.reads = true) :
    ∃ t, Service.serve (.read ref size off h.fh) out (Service.opened d) = some ((),t) ∧
      t.answers = [.data ((bytes.drop off).take size)] := by
  obtain ⟨i,known,filled⟩ := known
  have got : getInode ref out.calls {d with replies := []} = some (i,{d with replies := []}) :=
    getInodeEq out.calls (by cases ref <;> exact known) filled
  have entry := ok.file f file
  have read : Mount.pread d.fs h.fh.fd off size = .ok ((bytes.drop off).take size,d.fs) := by
    simp [Mount.pread,file,reads,entry,Entry.isDir,content]
  have known : Service.core (getInode ref) out (Service.opened d) = some (i,Service.opened d) := by
    simp only [Service.core,Service.opened,got,Option.map_some]
  obtain ⟨t,ran,answers⟩ := @doReadBack h.fh ((bytes.drop off).take size) size off out
    ⟨{d with replies := []},[],0 + Service.waitLoop out.observed (off + size) i.targetSize 24 0⟩
    ok.side quiet read
  exact ⟨t,(Prog.bindEq known).trans ran,answers⟩

end Conversion

theorem convertedReads {x : Ino} {producer : Nat} {y : Ino} {s s1 s2 : Session} {n : Nat} {ino : Ref} {e : Env Call}
    {events : List Event} (ready : Ready x producer y s n ino)
    (ok : step s (.on n (.request (.removexattr ino f3Id) e)) = some s1)
    (success : ∃ d ∈ s1.cluster.nodes[n]?, d.replies.head? = some (.err none))
    (meets : Meets step (Sparing x) s1 events) (later : run step s1 events = some s2) :
    (s1.cluster.shared.nodes x).content = written s.cluster producer y ∧
    ∀ h ∈ s2.holds, h.file = x → ∃ d, s2.cluster.nodes[h.node]? = some d ∧
      ∀ {ref size off out f}, Service.Known d ref → out.fault .readData = none →
        (d.mount h.fh.side).file h.fh.fd = some f → f.access.reads = true →
        ∃ t, Service.serve (.read ref size off h.fh) out (Service.opened (s2.cluster.view d)) = some ((),t) ∧
          t.answers = [.data (((written s.cluster producer y).drop off).take size)] := by
  have first := convertInv ready ok success
  have inv := Lib.Run.invariant (Sparing x) (Inv x (written s.cluster producer y)) stepInv first meets later
  refine ⟨first.content,fun h mem isX => ?_⟩
  obtain ⟨d,at_,held⟩ := inv.holds h mem isX
  refine ⟨d,at_,fun {ref _ _ _ _} known quiet file reads => ?_⟩
  rw [held.side] at file
  have known : Service.Known (s2.cluster.view d) ref := by cases ref <;> exact known
  exact readBack ⟨held.side,held.old,held.file⟩ inv.content known quiet file reads

instance (slot : Slot) (n : Nat) : Decidable (∀ k, slot = .fd k → k < n) := match slot with
  | .fd j => decidable_of_iff (j < n) ⟨fun less k same => Slot.fd.inj same ▸ less,fun all => all j rfl⟩
  | .closed => isTrue fun _ wrong => by cases wrong
  | .enoent => isTrue fun _ wrong => by cases wrong

instance (x d c) : Decidable (Own x d c) :=
  decidable_of_iff' _ ⟨fun h => And.intro h.old h.file,fun ⟨old,file⟩ => ⟨old,file⟩⟩

instance (x d h) : Decidable (HoldOk x d h) :=
  decidable_of_iff' _ ⟨fun h => And.intro h.side (And.intro h.old h.file),
    fun ⟨side,old,file⟩ => ⟨side,old,file⟩⟩

instance (x bytes c n ino) : Decidable (Whole x bytes c n ino) := by unfold Whole; infer_instance
instance (x c n ino) : Decidable (OnlyId x c n ino) := by unfold OnlyId; infer_instance

instance (x producer y s n ino) : Decidable (Ready x producer y s n ino) :=
  decidable_of_iff' _ ⟨fun h => And.intro h.copy (And.intro h.covered (And.intro h.names
      (And.intro h.owns (And.intro h.only h.holds)))),
    fun ⟨copy,covered,names,owns,only,holds⟩ => ⟨copy,covered,names,owns,only,holds⟩⟩

instance (x s event) : Decidable (Sparing x s event) := by
  unfold Sparing
  rcases event with _ | ⟨_,one⟩
  · infer_instance
  · rcases one with ⟨req,_⟩ | _
    · rcases req <;> infer_instance
    · infer_instance

def producer : Session := ⟨⟨(mounted true).fs.vol,[mounted true]⟩,[]⟩

def writeRun : List Event :=
  [.on 0 (.request (.create .root nameId forWriting) (calm 10)),
   .on 0 (.request (.writeBuf (.node 0) ⟨.id,.fd 1⟩ 0 [1,2,3]) (calm 10)),
   .on 0 (.request (.release (.node 0) ⟨.id,.fd 1⟩) (calm 10))]

def unmark : Event := .on 0 (.request (.removexattr (.node 0) f3Id) (calm 10))

def readRun : List Event :=
  [.join ⟨[47,105],[50],true⟩ (emptyVolume 7 ⟨[105],okI⟩),
   .on 1 (.request (.lookup .root nameA) (calm 20)),
   .on 1 (.request (.openFile (.node 0) ⟨.read,false,false⟩) (calm 20))]

def renameRun : List Event := writeRun ++ [.on 0 (.request (.rename .root nameId .root nameA false) (calm 11))]

def Rereads (s s1 s2 : Session) : Prop := Ready 10 0 10 s 0 (.node 0) ∧ written s.cluster 0 10 = [1,2,3] ∧
  (∃ d ∈ s1.cluster.nodes[0]?, d.replies.head? = some (.err none)) ∧ Meets step (Sparing 10) s1 readRun ∧
  ⟨1,10,⟨.fs,.fd 3⟩⟩ ∈ s2.holds ∧ ∃ d ∈ s2.cluster.nodes[1]?,
    (∃ i ∈ d.inode (.node 0), i.fd ≠ .closed) ∧ ∃ f ∈ d.fs.file (.fd 3), f.access.reads = true

instance (s s1 s2) : Decidable (Rereads s s1 s2) := by unfold Rereads; infer_instance

theorem renamedReads : ∃ s ∈ run step producer renameRun, ∃ s1 ∈ step s unmark,
    (s1.cluster.shared.nodes 10).content = [1,2,3] ∧ ∃ s2 ∈ run step s1 readRun, ∃ d ∈ s2.cluster.nodes[1]?,
      ∃ t, Service.serve (.read (.node 0) 4096 0 ⟨.fs,.fd 3⟩) Service.quiet (Service.opened (s2.cluster.view d)) =
        some ((),t) ∧ t.answers = [.data [1,2,3]] := by
  obtain ⟨s,ran,s1,next,s2,later,ready,wrote,success,meets,held,d,node,⟨i,known,live⟩,f,file,reads⟩ :
      ∃ s ∈ run step producer renameRun, ∃ s1 ∈ step s unmark, ∃ s2 ∈ run step s1 readRun,
        Rereads s s1 s2 := by
    decide +kernel
  obtain ⟨content,each⟩ := convertedReads ready next success meets later
  obtain ⟨d',node',reading⟩ := each _ held rfl
  cases Eq.trans (Eq.symm node) node'
  obtain ⟨t,served,answers⟩ := @reading (.node 0) 4096 0 Service.quiet f ⟨i,known,fun _ => live⟩ rfl file reads
  rw [wrote] at content answers
  exact ⟨s,ran,s1,next,content,s2,later,d,node,t,served,answers⟩

theorem nameStaysId : ∃ s ∈ run step producer writeRun, ∃ s1 ∈ step s unmark,
    s1.cluster.nodes.map State.replies = [[.err none]] ∧ (s1.cluster.shared.nodes 10).content = [1,2,3] ∧
    ∃ s2 ∈ run step s1 [.on 0 .restart,.on 0 (.request (.lookup .root nameId) (calm 20)),
        .on 0 (.request (.openFile (.node 0) ⟨.read,false,false⟩) (calm 20))],
      s2.holds = [⟨0,10,⟨.id,.fd 2⟩⟩] ∧ ∃ d ∈ s2.cluster.nodes[0]?,
      (Service.serve (.read (.node 0) 4096 0 ⟨.id,.fd 2⟩) Service.quiet (Service.opened (s2.cluster.view d))).map
        (fun r => r.2.answers) = some [.data []] := by
  decide +kernel

end F3.Driver.Converted
