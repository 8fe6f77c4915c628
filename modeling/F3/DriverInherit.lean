import F3.DriverOffer
import F3.DriverFds
import F3.DriverCluster
import Mathlib.Order.BooleanAlgebra.Set

/-! How a tree that mkdir and create requests build below an unmarked root is told apart: the
names that end in ".id" and everything below them. The suffix is read from the name, the
rest is inherited through the attribute that mkdir puts on a directory. -/
namespace F3.Driver.Inherit
open Lib (Bytes Arena Cell Prog)
open Lib.Posix
open Lib.Run (run Meets)
open Choice (idName)
open Offer (Succeeds failedReply)

-- ".id"
def dotId : Bytes := [46,105,100]

theorem strrchrAbsent {c : UInt8} {b : Bytes} (absent : c ∉ b) : strrchr c b = none := by
  induction b with
  | nil => rfl
  | cons x rest ih =>
    obtain ⟨other,absent⟩ := not_or.mp (mt List.mem_cons.mpr absent)
    simp [strrchr,ih absent,Ne.symm other]

theorem strrchrLast {c : UInt8} {tail : Bytes} (absent : c ∉ tail) (stem : Bytes) :
    strrchr c (stem ++ c::tail) = some (c::tail) := by
  induction stem with
  | nil => simp [strrchr,strrchrAbsent absent]
  | cons x rest ih => simp [strrchr,ih]

theorem strrchrSplit {c : UInt8} {b ext : Bytes} (found : strrchr c b = some ext) :
    ext.head? = some c ∧ ext <:+ b := by
  induction b with
  | nil => cases found
  | cons x rest ih =>
    simp only [strrchr] at found
    split at found
    · rename_i tail later
      cases Option.some.inj found
      obtain ⟨first,suffix⟩ := ih later
      exact ⟨first,suffix.trans (List.suffix_cons x rest)⟩
    · split at found <;> try contradiction
      rename_i same
      cases Option.some.inj found
      exact ⟨by simp [same],List.suffix_refl _⟩

theorem isIdExtIff {name : Bytes} : f3IsIdExt name = true ↔ dotId <:+ name := by
  constructor
  · intro isExt
    unfold f3IsIdExt at isExt
    split at isExt <;> try contradiction
    rename_i ext found
    obtain ⟨first,suffix⟩ := strrchrSplit found
    have whole : ext = dotId := by
      rw [← List.cons_head?_tail first,of_decide_eq_true isExt,dotId]
    exact whole ▸ suffix
  · rintro ⟨stem,rfl⟩
    simp [f3IsIdExt,dotId,strrchrLast]

def idPath (q : List FileName) : Bool := q.any fun n => f3IsIdExt n.val

theorem idPathIff {q : List FileName} : idPath q = true ↔ ∃ n ∈ q, dotId <:+ n.val := by
  simp [idPath,isIdExtIff]

theorem idPathChild (p : List FileName) (name : FileName) :
    idPath (p ++ [name]) = (idPath p || f3IsIdExt name.val) := by
  simp [idPath]

structure Seat (d : State) (q : List FileName) (x : Entry) (c : Cell SrcId Inode) : Prop where
  key : c.key = (x.ino,d.fs.vol.dev)
  file : ∃ f, d.fs.file c.value.fd = some f ∧ f.entry = x
  isId : c.value.isId = idPath q
  copy : c.value.isId = true → ∃ g, d.id.file c.value.idFd = some g
  number : x.ino ≠ 1

/- Every directory is marked as its path says, and every entry has an inode that says so
too, but for the paths in `late`: the root, and the name that a request is working on. -/
structure Inherits (late : Set (List FileName)) (d : State) : Prop where
  dev : d.fs.vol.dev = d.conf.srcDev
  root : ∃ f, d.fs.file d.root.fd = some f ∧ d.fs.vol.tree.find [] = some f.entry
  marks : ∀ {q x}, d.fs.vol.tree.find q = some x → x.isDir = true → marked d.fs.vol x.ino = idPath q
  once : ∀ {q r x y}, d.fs.vol.tree.find q = some x → d.fs.vol.tree.find r = some y →
    x.ino = y.ino → q = r
  seated : ∀ {q x}, d.fs.vol.tree.find q = some x → q ∉ late → ∃ c ∈ d.inodes.cells, Seat d q x c
  cells : ∀ c ∈ d.inodes.cells, ∃ q x, d.fs.vol.tree.find q = some x ∧ q ∉ late ∧
    c.key = (x.ino,d.fs.vol.dev)

section Steps
variable {d d' : State} {late : Set (List FileName)} {q : List FileName} {x : Entry}

theorem Seat.live {c : Cell SrcId Inode} (seat : Seat d q x c) : c.value.Live := by
  obtain ⟨f,known,_⟩ := seat.file
  obtain ⟨n,isFd⟩ := fdOfFile known
  simp [Inode.Live,isFd]

theorem Seat.kept {b c : Cell SrcId Inode} (seat : Seat d q x b) (key : c.key = b.key)
    (same : c.value.fd = b.value.fd ∧ c.value.idFd = b.value.idFd ∧ c.value.isId = b.value.isId)
    (dev : d'.fs.vol.dev = d.fs.vol.dev) (fs : Held d.fs.next d.fs d'.fs)
    (id : Held d.id.next d.id d'.id) : Seat d' q x c := by
  obtain ⟨fd,idFd,isId⟩ := same
  obtain ⟨f,known,entry⟩ := seat.file
  refine ⟨by rw [key,seat.key,dev],⟨f,by rw [fd]; exact heldFile fs known,entry⟩,by rw [isId,seat.isId],
    fun yes => ?_,seat.number⟩
  obtain ⟨g,copy⟩ := seat.copy (isId ▸ yes)
  exact ⟨g,by rw [idFd]; exact heldFile id copy⟩

theorem Inherits.only (inherits : Inherits late d) {c : Cell SrcId Inode} (mem : c ∈ d.inodes.cells)
    (found : d.fs.vol.tree.find q = some x) (number : c.key.1 = x.ino) : q ∉ late ∧ Seat d q x c := by
  obtain ⟨r,y,there,early,key⟩ := inherits.cells c mem
  have same : y.ino = x.ino := by rw [← number,key]
  cases inherits.once there found same
  cases there.symm.trans found
  obtain ⟨b,memB,seat⟩ := inherits.seated found early
  cases Arena.sameKey mem memB (key.trans seat.key.symm)
  exact ⟨early,seat⟩

theorem quietTree {late' : Set (List FileName)} (inherits : Inherits late d) (quiet : Quiet d.fs d'.fs)
    (fs : Held d.fs.next d.fs d'.fs) (root : d'.root = d.root) (conf : d'.conf = d.conf)
    (seated : ∀ {q x}, d.fs.vol.tree.find q = some x → q ∉ late' → ∃ c ∈ d'.inodes.cells, Seat d' q x c)
    (cells : ∀ c ∈ d'.inodes.cells, ∃ q x, d.fs.vol.tree.find q = some x ∧ q ∉ late' ∧
      c.key = (x.ino,d.fs.vol.dev)) : Inherits late' d' := by
  obtain ⟨f,known,atRoot⟩ := inherits.root
  refine ⟨?_,⟨f,?_,?_⟩,fun found isDir => ?_,fun one two => ?_,fun found => ?_,?_⟩
  · rw [quiet.dev,conf,inherits.dev]
  · rw [root]
    exact heldFile fs known
  · rw [quiet.tree]
    exact atRoot
  · rw [quiet.tree] at found
    simpa only [marked,quiet.nodes] using inherits.marks found isDir
  · rw [quiet.tree] at one two
    exact inherits.once one two
  · rw [quiet.tree] at found
    exact seated found
  · rw [quiet.tree,quiet.dev]
    exact cells

theorem quietInherits {a : Nat} {f : Inode → Inode} (inherits : Inherits late d)
    (quiet : Quiet d.fs d'.fs) (fs : Held d.fs.next d.fs d'.fs) (id : Held d.id.next d.id d'.id)
    (root : d'.root = d.root) (conf : d'.conf = d.conf) (table : d'.inodes = d.inodes.modify a f)
    (spares : ∀ i, (f i).fd = i.fd ∧ (f i).idFd = i.idFd ∧ (f i).isId = i.isId) :
    Inherits late d' := by
  refine quietTree inherits quiet fs root conf (fun found early => ?_) ?_ <;> rw [table]
  · obtain ⟨c,mem,seat⟩ := inherits.seated found early
    by_cases hit : c.addr = a
    · subst hit
      exact ⟨_,Arena.memModify f mem,seat.kept rfl (spares c.value) quiet.dev fs id⟩
    · exact ⟨c,Arena.memModifyOther f mem hit,seat.kept rfl ⟨rfl,rfl,rfl⟩ quiet.dev fs id⟩
  · exact Arena.allModify (fun c mem _ => inherits.cells c mem) fun c mem _ => inherits.cells c mem

structure Grew (path : List FileName) (d d' : State) : Prop where
  inodes : d'.inodes = d.inodes
  root : d'.root = d.root
  conf : d'.conf = d.conf
  dev : d'.fs.vol.dev = d.fs.vol.dev
  fs : Held d.fs.next d.fs d'.fs
  id : Held d.id.next d.id d'.id
  kept : ∀ {q x}, d.fs.vol.tree.find q = some x → d'.fs.vol.tree.find q = some x
  new : ∀ {q x}, d'.fs.vol.tree.find q = some x → d.fs.vol.tree.find q = some x ∨
    q = path ∧ d.fs.vol.tree.find path = none ∧ ∀ {r y}, d.fs.vol.tree.find r = some y → y.ino ≠ x.ino
  marks : ∀ {q x}, d'.fs.vol.tree.find q = some x → x.isDir = true → marked d'.fs.vol x.ino = idPath q

theorem grewInherits {path : List FileName} (below : path ≠ []) (inherits : Inherits {[]} d)
    (grew : Grew path d d') : ∃ late, late \ {path} = {[]} ∧ Inherits late d' := by
  have base : ∀ late : Set (List FileName), (∀ {q x}, d'.fs.vol.tree.find q = some x → q ∉ late →
      d.fs.vol.tree.find q = some x ∧ q ∉ ({[]} : Set (List FileName))) →
      (∀ {q x}, d.fs.vol.tree.find q = some x → q ≠ [] → q ∉ late) → Inherits late d' := by
    intro late early old
    obtain ⟨f,known,atRoot⟩ := inherits.root
    refine ⟨?_,⟨f,?_,grew.kept atRoot⟩,grew.marks,fun {q r x y} one two same => ?_,
      fun found isEarly => ?_,fun c mem => ?_⟩
    · rw [grew.dev,grew.conf,inherits.dev]
    · rw [grew.root]
      exact heldFile grew.fs known
    · rcases grew.new one with one | ⟨rfl,_,apart⟩ <;> rcases grew.new two with two | ⟨isPath,_,apart'⟩
      · exact inherits.once one two same
      · exact absurd same (apart' one)
      · exact absurd same.symm (apart two)
      · exact isPath.symm
    · obtain ⟨found,early⟩ := early found isEarly
      obtain ⟨c,mem,seat⟩ := inherits.seated found early
      exact ⟨c,grew.inodes ▸ mem,seat.kept rfl ⟨rfl,rfl,rfl⟩ grew.dev grew.fs grew.id⟩
    · rw [grew.inodes] at mem
      obtain ⟨q,x,found,isEarly,key⟩ := inherits.cells c mem
      exact ⟨q,x,grew.kept found,old found isEarly,by rw [key,grew.dev]⟩
  cases absent : d.fs.vol.tree.find path with
  | none =>
    refine ⟨insert path {[]},Set.insert_sdiff_self_of_notMem below,base _ (fun found early => ?_) ?_⟩
    · obtain ⟨other,early⟩ := not_or.mp early
      exact ⟨(grew.new found).resolve_right fun isNew => other isNew.1,early⟩
    · rintro q x found notRoot (rfl | isRoot)
      · rw [absent] at found
        cases found
      · exact notRoot isRoot
  | some y =>
    refine ⟨{[]},Set.sdiff_singleton_eq_self below,base _ (fun found early => ⟨?_,early⟩) fun _ => id⟩
    refine (grew.new found).resolve_right fun isNew => ?_
    rw [absent] at isNew
    cases isNew.2.1

end Steps

section Lookup
variable {e : Env Call} {d d' : State} {late : Set (List FileName)} {parent : Ref} {dir : Inode}
  {name : FileName} {up entry : Entry} {p : List FileName}

theorem newAsPath (inherits : Inherits late d) (tests : Tests e) (at_ : d.fs.dirAt dir.fd = .ok (up,p)) :
    isNewHere e d.fs dir name = idPath (p ++ [name]) := by
  obtain ⟨_,_,_,isDir,there⟩ := dirAtFile at_
  rw [Choice.isNewHereExact tests at_,idName,inherits.marks there isDir,idPathChild]

theorem notReserved {m : Mount Call} {srcDev : Dev} {newfd attr}
    (resolves : resolve e m srcDev dir name = some (newfd,attr)) : attr.ino ≠ 1 := by
  unfold resolve at resolves
  split at resolves <;> try contradiction
  split at resolves <;> try contradiction
  split at resolves <;> try contradiction
  rename_i inside
  cases Option.some.inj resolves
  exact fun reserved => inside (.inr reserved)

theorem builtFiles {x : EntryParam} (known : d.inode parent = some dir) (at_ : d.fs.dirAt dir.fd = .ok (up,p))
    (found : d.fs.vol.tree.find (p ++ [name]) = some entry)
    (ok : doLookup parent name e d = some (.ok x,d')) (dead : ¬ (slotted d (entry.ino,d.fs.vol.dev)).Live)
    {newfd} (resolves : resolve e d.fs d.conf.srcDev dir name = some (newfd,d.fs.vol.stat entry)) :
    (∃ f, d'.fs.file (.fd d.fs.next) = some f ∧ f.entry = entry) ∧
      (((slotted d (entry.ino,d.fs.vol.dev)).isId || isNewHere e d.fs dir name) = true →
        ∃ g, d'.id.file (openIdCopy dir.idFd name entry.kind e d.id).1.1 = some g) := by
  constructor
  · cases Fds.lookedFs known ok with
    | missed nothing => simp [resolves] at nothing
    | refused nothing => simp [resolves] at nothing
    | counted resolves' live =>
      cases (Option.some.inj (resolves.symm.trans resolves'))
      exact absurd live dead
    | stored resolves' _ answered opened ino there =>
      rw [foundAtPath at_,found] at there
      exact ⟨_,opened.here,(Option.some.inj there).symm⟩
    | dropped resolves' _ failed =>
      obtain ⟨err,wrong⟩ := failed
      cases wrong
  · intro isId
    have told := lookupTold known ok
    simp only [Told,resolves] at told
    rw [if_neg (show ¬ (slotted d ((d.fs.vol.stat entry).ino,(d.fs.vol.stat entry).dev)).Live from dead)] at told
    rcases told.2 with ⟨_,err,_,wrong⟩ | ⟨stats,_⟩
    · cases wrong
    · obtain ⟨st,stat⟩ := stats isId
      exact statFile stat

theorem lookupInherits {x : EntryParam} (inherits : Inherits late d) (tests : Tests e)
    (known : d.inode parent = some dir) (at_ : d.fs.dirAt dir.fd = .ok (up,p))
    (found : d.fs.vol.tree.find (p ++ [name]) = some entry)
    (ok : doLookup parent name e d = some (.ok x,d')) : Inherits (late \ {p ++ [name]}) d' := by
  have looks := doLookupLooks parent name e d _ d' ok
  have held := lookupHeld ok
  have heldId := lookupHeldId ok
  cases foundAs known at_ found ok with
  | @known c src resolves here live named table =>
    obtain ⟨mem,key⟩ := Arena.atKeyMem here
    have early := (inherits.only mem found (by rw [key])).1
    rw [Set.sdiff_singleton_eq_self early]
    exact quietInherits inherits looks.fs held heldId looks.root looks.conf table fun _ => ⟨rfl,rfl,rfl⟩
  | @built c src conn resolves isKey old entered dead named table =>
    have number : c.key.1 = entry.ino := by rw [isKey]
    have absent : d.inodes.atKey c.key = none ∧ c.value = {} :=
      old.resolve_left fun here => dead (inherits.only (Arena.atKeyMem here).1 found number).2.live
    have slot : slotted d (entry.ino,d.fs.vol.dev) = {} := by simp [slotted,← isKey,absent.1]
    obtain ⟨file,copy⟩ := builtFiles known at_ found ok (by rw [slot]; decide) resolves
    have isNew : isNewHere e d.fs dir name = idPath (p ++ [name]) := newAsPath inherits tests at_
    let value : Inode := {c.value.built c.key (.fd d.fs.next) (isNewHere e d.fs dir name)
      (openIdCopy dir.idFd name entry.kind e d.id).1 conn with src := src}
    have seat : Seat d' (p ++ [name]) entry {c with value := value} := by
      refine ⟨by rw [looks.fs.dev]; exact isKey,file,?_,fun isId => copy ?_,?_⟩
      · simp [value,Inode.built,absent.2,isNew]
      · rw [slot]
        simpa [value,Inode.built,absent.2] using isId
      · exact notReserved resolves
    refine quietTree inherits looks.fs held looks.root looks.conf (fun {q y} there early => ?_) ?_ <;>
      rw [table]
    · by_cases here : q = p ++ [name]
      · subst here
        cases found.symm.trans there
        exact ⟨_,Arena.memModify _ (Arena.atAddrMem entered).1,seat⟩
      · obtain ⟨b,mem,seatB⟩ := inherits.seated there fun isLate => early ⟨isLate,here⟩
        have stays := Arena.atAddrEnter (k := c.key) {} (Arena.memAtAddr mem)
        have apart : b.addr ≠ c.addr := by
          intro same
          rw [same] at stays
          exact dead (Option.some.inj (entered.symm.trans stays) ▸ seatB.live)
        exact ⟨b,Arena.memModifyOther _ (Arena.atAddrMem stays).1 apart,
          seatB.kept rfl ⟨rfl,rfl,rfl⟩ looks.fs.dev held heldId⟩
    · refine Arena.allModify (fun b mem other => ?_) fun b mem same => ?_
      · obtain ⟨q,y,there,early,isB⟩ := inherits.cells b (Arena.enterOthers entered rfl b mem other)
        exact ⟨q,y,there,fun now => early now.1,isB⟩
      · cases Arena.onlyAt entered mem same
        exact ⟨p ++ [name],entry,found,fun now => now.2 rfl,isKey⟩

end Lookup

structure Marks (e : Env Call) : Prop where
  tests : Tests e
  opens : e.fault (.mknodOpen .fs) = none ∧ e.fault (.mark .fs .openFd) = none
  sets : e.fault (.mark .fs .setId) = none

theorem setHere {m : Mount Call} {ino : Ino} (b : Bool) (bare : (m.vol.nodes ino).xattr f3Id = none) :
    marked (if b then idSet m ino else m).vol ino = b := by
  cases b <;> simp [marked,idSet,setAttrXattr,trueText,bare]

theorem setOther {m : Mount Call} {ino i : Ino} (b : Bool) (other : i ≠ ino) :
    marked (if b then idSet m ino else m).vol i = marked m.vol i := by
  cases b <;> simp [marked,idSet,setAttrXattr,other]

theorem markedKept {m m' : Mount Call} (grows : Grows m m') {q x} (found : m.vol.tree.find q = some x) :
    marked m'.vol x.ino = marked m.vol x.ino := by
  simp only [marked,grows.xattr found]

section Requests
variable {e : Env Call} {d d' : State} {parent : Ref} {dir : Inode} {name : FileName}
  {up entry : Entry} {p : List FileName}

theorem markDirMarks (marks : Marks e) (at_ : d.fs.dirAt dir.fd = .ok (up,p))
    (found : d.fs.vol.tree.find (p ++ [name]) = some entry) (isDir : entry.kind = .dir)
    (ok : markDir .fs dir name e d = some ((),d')) : Alike f3Id (idSet d.fs entry.ino) d'.fs := by
  let f : File := ⟨entry,some (up,name),.path⟩
  have opened : openPath (.mknodOpen .fs) (dir.copy .fs) name e d.fs = (.ok (.fd d.fs.next),d.fs.install f) :=
    openPathFinds marks.opens.1 at_ found
  have mark := @marksId .fs d.conf.address (.fd d.fs.next) (d.conf.rootDir .fs).length e (d.fs.install f) f
    (fileInstall d.fs f) (.inl isDir) marks.opens.2 marks.sets
  have same : d'.fs = (close (.fd d.fs.next) e
      (f3MarkAsId .fs d.conf.address (.fd d.fs.next) (d.conf.rootDir .fs).length e (d.fs.install f)).2).2 := by
    cases Option.some.inj ok
    simp only [State.mount,State.setMount,opened,slotOf]
  rw [same]
  exact trans_of (Alike f3Id) (alikeSetAttr ((installQuiet d.fs f).alike f3Id) entry.ino _)
    (trans_of (Alike f3Id) mark ((closeQuiet _ e _).alike f3Id))

theorem mkdirMarks {link : Bytes} (marks : Marks e) (known : d.inode parent = some dir)
    (at_ : d.fs.dirAt dir.fd = .ok (up,p)) (found : d.fs.vol.tree.find (p ++ [name]) = some entry)
    (isDir : entry.kind = .dir) (ok : mknodId parent dir name .dir link e d = some (.ok (),d')) :
    Alike f3Id (if idName d.fs.vol up name then idSet d.fs entry.ino else d.fs) d'.fs := by
  obtain ⟨made,d1,call,ok⟩ := Prog.bindSome ok
  obtain ⟨n,rfl⟩ : ∃ n, d1 = {d with id := n} := ⟨_,(sysSome call).2⟩
  cases made with
  | error err => cases (Prog.pureSome ok).1
  | ok _ =>
    obtain ⟨b,d2,asked,ok⟩ := Prog.bindSome ok
    obtain ⟨_,d3,marking,ok⟩ := Prog.bindSome ok
    rw [(Prog.pureSome ok).2]
    have known1 : State.inode {d with id := n} parent = some dir := by cases parent <;> exact known
    obtain ⟨rfl,rfl⟩ := Choice.newIdExact marks.tests known1 at_ asked
    have quiet := f3IsIdQuiet .handler dir.fd e d.fs
    unfold Prog.onlyIf at marking
    split at marking
    · rename_i isNew
      obtain ⟨_,d4,one,two⟩ := Prog.bindSome marking
      obtain ⟨_,_,_,_,there⟩ := dirAtFile at_
      have still := heldDir (f3IsIdHeld .handler dir.fd e d.fs) (by rw [quiet.tree]; exact there) at_
      have again : (f3IsId .handler dir.fd e d.fs).2.vol.tree.find (p ++ [name]) = some entry := by
        rw [quiet.tree]
        exact found
      have mark := markDirMarks marks still again isDir one
      obtain ⟨_,rfl,_⟩ := markDirSome two
      rw [if_pos isNew]
      exact trans_of (Alike f3Id) (alikeSetAttr (quiet.alike f3Id) entry.ino _) mark
    · rename_i isOld
      rw [if_neg isOld,(Prog.pureSome marking).2]
      exact quiet.alike f3Id

theorem mkdirGrew {link : Bytes} {m : Mount Call} (marks : Marks e) (inherits : Inherits {[]} d)
    (known : d.inode parent = some dir)
    (made : makeAt (.mknod .fs) dir.fd name .dir link e d.fs = (.ok (),m))
    (copied : mknodId parent dir name .dir link e {d with fs := m} = some (.ok (),d')) :
    ∃ up p entry, d'.fs.dirAt dir.fd = .ok (up,p) ∧ d'.fs.vol.tree.find (p ++ [name]) = some entry ∧
      Grew (p ++ [name]) d d' := by
  obtain ⟨up,p,entered⟩ := makeEntered made
  obtain ⟨up',p',v,at_,done,rfl⟩ := makeAtOk made
  cases at_.symm.trans entered.was
  obtain ⟨made',n,madeId,rfl,⟨⟨err,wrong⟩,_⟩ | ⟨_,around⟩⟩ := mknodIdMade (.inl rfl) copied
  · cases wrong
  obtain ⟨_,_,enteredId⟩ := makeEntered madeId
  obtain ⟨free,ok,_,nodes,_,_⟩ := makeOk done
  have grows : Grows d.fs {d.fs with vol := v} := makeGrows done
  have known1 : State.inode {d with fs := {d.fs with vol := v}} parent = some dir := by
    cases parent <;> exact known
  have alike := mkdirMarks marks known1 entered.now entered.found rfl copied
  have tree : d'.fs.vol.tree = v.tree := (around 0 0).tree
  obtain ⟨now,found⟩ := entered.still ((around d.fs.next 0).held entered.held.next) tree
  obtain ⟨_,_,_,isDir,there⟩ := dirAtFile at_
  have isNew : idName v up name = idPath (p ++ [name]) := by
    rw [idPathChild,← inherits.marks there isDir,idName,markedKept grows there]
  refine ⟨up,p,_,now,found,(around 0 0).inodes,(around 0 0).root,(around 0 0).conf,
    (around 0 0).dev.trans entered.dev,
    trans_of (Held d.fs.next) entered.held ((around d.fs.next 0).held entered.held.next),
    trans_of (Held d.id.next) enteredId.held ((around 0 d.id.next).heldId enteredId.held.next),
    fun before => by rw [tree]; exact grows.kept before,fun {q x} after => ?_,fun {q x} after isDir => ?_⟩
  · rw [tree,madeFind done] at after
    split at after
    · rename_i here
      cases Option.some.inj after
      exact .inr ⟨here,ok.2.1,fun other => free.2 _ (Lib.Tree.foundMem.mp other)⟩
    · exact .inl after
  · rw [tree,madeFind done] at after
    rw [markedAlike alike]
    split at after
    · rename_i here
      cases Option.some.inj after
      rw [setHere _ (by simp [nodes,Volume.setNode]),here]
      exact isNew
    · rw [setOther _ (free.2 _ (Lib.Tree.foundMem.mp after)),← inherits.marks after isDir]
      exact markedKept grows after

theorem createMarks {fd idFd : Slot} {fh : Handle} {f : File} (opened : d.fs.file fd = some f)
    (ok : chooseCopy parent name fd idFd e d = some (fh,d')) :
    Alike f3Id d.fs d'.fs ∨ Alike f3Id (idSet d.fs f.entry.ino) d'.fs := by
  obtain ⟨b,d1,asked,outcome⟩ := chooseSome ok
  obtain ⟨dir,_,_,rfl⟩ := f3IsNewIdSome asked
  have quiet := f3IsIdQuiet .handler dir.fd e d.fs
  have still : (f3IsId .handler dir.fd e d.fs).2.file fd = some f :=
    heldFile (f3IsIdHeld .handler dir.fd e d.fs) opened
  rcases outcome with ⟨_,rfl⟩ | ⟨_,both⟩
  · exact .inl (quiet.alike f3Id)
  · rw [both.fs]
    have last := fun m : Mount Call => (closeQuiet fd e m).alike f3Id
    rcases (markedTo .fs d.conf.address fd d.conf.source.length e
      (f3IsId .handler dir.fd e d.fs).2).idAlike with same | ⟨g,known,set⟩
    · exact .inl (trans_of (Alike f3Id) (quiet.alike f3Id) (trans_of (Alike f3Id) same (last _)))
    · cases Option.some.inj (still.symm.trans known)
      exact .inr (trans_of (Alike f3Id) (alikeSetAttr (quiet.alike f3Id) f.entry.ino _)
        (trans_of (Alike f3Id) set (last _)))

theorem createGrew {flags : Flags} {fd idFd : Slot} {m n : Mount Call} {fh : Handle}
    (inherits : Inherits {[]} d)
    (opened : openCreate (.create .fs) dir.fd name flags e d.fs = (.ok fd,m))
    (openedId : openCreate (.create .id) dir.idFd name flags e d.id = (.ok idFd,n))
    (chosen : chooseCopy parent name fd idFd e {d with fs := m, id := n} = some (fh,d')) :
    ∃ up p entry, d'.fs.dirAt dir.fd = .ok (up,p) ∧ d'.fs.vol.tree.find (p ++ [name]) = some entry ∧
      Grew (p ++ [name]) d d' := by
  have grows := openCreateGrows (.create .fs) dir.fd name flags e d.fs
  rw [opened] at grows
  obtain ⟨rfl,up,p,entry,entered,_⟩ := createEntered opened
  obtain ⟨_,_,_,_,enteredId,_⟩ := createEntered openedId
  obtain ⟨_,_,f,was,_,file,_,isReg,here,outcome⟩ := openCreateOk opened
  cases was.symm.trans entered.was
  cases here.symm.trans entered.found
  have around : ∀ c, Around d.fs.next c {d with fs := m, id := n} d' :=
    fun c => chooseAround (Nat.le_refl _) e _ fh d' chosen
  have tree : d'.fs.vol.tree = m.vol.tree := (around 0).tree
  obtain ⟨now,found⟩ := entered.still ((around 0).held entered.held.next) tree
  have new : ∀ {q x}, m.vol.tree.find q = some x → d.fs.vol.tree.find q = some x ∨
      x.isDir = false ∧ q = p ++ [name] ∧ d.fs.vol.tree.find (p ++ [name]) = none ∧
      ∀ {r y}, d.fs.vol.tree.find r = some y → y.ino ≠ x.ino := by
    intro q x after
    rcases outcome with ⟨_,alike⟩ | ⟨v,done,quiet⟩
    · exact .inl ((alike f3Id).tree ▸ after)
    · rw [quiet.tree,madeFind done] at after
      split at after
      · rename_i isPath
        obtain ⟨free,ok,_⟩ := makeOk done
        cases Option.some.inj after
        exact .inr ⟨rfl,isPath,ok.2.1,fun other => free.2 _ (Lib.Tree.foundMem.mp other)⟩
      · exact .inl after
  refine ⟨up,p,_,now,found,(around 0).inodes,(around 0).root,(around 0).conf,(around 0).dev.trans entered.dev,
    trans_of (Held d.fs.next) entered.held ((around 0).held entered.held.next),
    trans_of (Held d.id.next) enteredId.held ((around d.id.next).heldId enteredId.held.next),
    fun before => by rw [tree]; exact grows.kept before,fun {q x} after => ?_,fun {q x} after isDir => ?_⟩
  · rw [tree] at after
    exact (new after).imp id And.right
  · rw [tree] at after
    rcases new after with before | ⟨isFile,_⟩
    · have other : x.ino ≠ f.entry.ino := by
        intro same
        cases m.vol.distinct _ _ _ _ after here same
        simp [Entry.isDir,isReg] at isDir
      rw [← inherits.marks before isDir,← markedKept grows before]
      rcases createMarks file chosen with alike | alike
      · exact markedAlike alike x.ino
      · exact (markedAlike alike x.ino).trans (setOther true other)
    · rw [isFile] at isDir
      cases isDir

theorem doneInherits {t : State} {x : EntryParam} (marks : Marks e)
    (inherits : Inherits {[]} d) (known : d.inode parent = some dir)
    (grown : ∃ up p entry, t.fs.dirAt dir.fd = .ok (up,p) ∧ t.fs.vol.tree.find (p ++ [name]) = some entry ∧
      Grew (p ++ [name]) d t) (ok : doLookup parent name e t = some (.ok x,d')) : Inherits {[]} d' := by
  obtain ⟨up,p,entry,at_,found,grew⟩ := grown
  obtain ⟨late,base,inherits⟩ := grewInherits (by simp) inherits grew
  have knownNow : t.inode parent = some dir := by
    cases parent
    · exact (congrArg some grew.root).trans known
    · exact (congrArg (fun t : Arena SrcId Inode => (t.atAddr _).map Cell.value) grew.inodes).trans known
  exact base ▸ lookupInherits inherits marks.tests knownNow at_ found ok

theorem repliedInherits {late : Set (List FileName)} (inherits : Inherits late d) (replies : List Reply) :
    Inherits late {d with replies := replies} :=
  ⟨inherits.dev,inherits.root,inherits.marks,inherits.once,
    fun found early => (inherits.seated found early).imp fun _ there =>
      ⟨there.1,⟨there.2.key,there.2.file,there.2.isId,there.2.copy,there.2.number⟩⟩,inherits.cells⟩

theorem andThenAnswers {α β : Type} {p : Handler (Except Errno α)} {f : α → Handler (Except Errno β)} {b}
    (ok : andThen p f e d = some (.ok b,d')) :
    ∃ a t, p e d = some (.ok a,t) ∧ f a e t = some (.ok b,d') := by
  obtain ⟨r,t,first,rest⟩ := Prog.bindSome ok
  cases r with
  | error err => cases (Prog.pureSome rest).1
  | ok a => exact ⟨a,t,first,rest⟩

theorem mkdirInherits {link : Bytes} (fresh : d.replies = []) (marks : Marks e) (inherits : Inherits {[]} d)
    (ran : mknodSymlink parent name .dir link e d = some ((),d')) (ok : Succeeds d') :
    Inherits {[]} d' := by
  obtain ⟨dir,u,first,rest⟩ := Prog.bindSome ran
  obtain ⟨rfl,known,_⟩ := getInodeSome first
  obtain ⟨answer,w,calls,last⟩ := Prog.bindSome rest
  have mute : w.replies = [] := (keepsAndThen (Service.sysMute .fs _) (fun _ =>
    keepsAndThen (Service.mknodIdMute parent dir name .dir link) fun _ => Service.lookupMute parent name)
    e u answer w calls).trans fresh
  cases answer with
  | error err => exact (failedReply mute (congrArg State.replies (replySome last)) ok).elim
  | ok x =>
    obtain ⟨_,t,made,calls⟩ := andThenAnswers calls
    obtain ⟨_,t',copied,lookup⟩ := andThenAnswers calls
    obtain ⟨isOk,rfl⟩ := sysSome made
    have call : makeAt (.mknod .fs) dir.fd name .dir link e u.fs = (.ok (),_) := Prod.ext isOk.symm rfl
    rw [replySome last]
    exact repliedInherits (doneInherits marks inherits known
      (mkdirGrew marks inherits known call copied) lookup) _

theorem replyCreateInherits {late : Set (List FileName)} {x : EntryParam} {fh : Handle}
    (inherits : Inherits late d) (ran : replyCreate x fh e d = some ((),d')) : Inherits late d' := by
  unfold replyCreate at ran
  cases ino : x.ino with
  | none => simp [ino,Prog.abort] at ran
  | some a =>
    simp only [ino] at ran
    obtain ⟨_,u,first,rest⟩ := Prog.bindSome ran
    obtain ⟨rfl,_⟩ := getInodeSome first
    cases Option.some.inj rest
    exact quietInherits inherits (refl_of Quiet u.fs) (refl_of (Held u.fs.next) u.fs)
      (refl_of (Held u.id.next) u.id) rfl rfl rfl fun _ => ⟨rfl,rfl,rfl⟩

theorem createInherits {flags : Flags} (fresh : d.replies = []) (marks : Marks e)
    (inherits : Inherits {[]} d) (ran : sfsCreate parent name flags e d = some ((),d')) (ok : Succeeds d') :
    Inherits {[]} d' := by
  obtain ⟨dir,known,outcome⟩ := createSome ran
  cases outcome with
  | noFs same => exact (failedReply fresh (congrArg State.replies same) ok).elim
  | noId _ _ same => exact (failedReply fresh (congrArg State.replies same) ok).elim
  | @chosen fd m idFd n fh d1 r d2 opened openedId chosen lookup finish =>
    have mute : d2.replies = [] := (Service.lookupMute parent name e d1 r d2 lookup).trans
      ((Service.chooseMute parent name fd idFd e _ fh d1 chosen).trans fresh)
    cases r with
    | error err => exact (failedReply mute (congrArg State.replies (replySome finish)) ok).elim
    | ok x =>
      exact replyCreateInherits
        (doneInherits marks inherits known (createGrew inherits opened openedId chosen) lookup) finish

end Requests

def Builds (d : State) : Step → Prop
  | .request req e => (match req with
      | .mknod _ _ .dir _ => True
      | .create _ _ _ => True
      | _ => False) ∧ Marks e ∧ ∀ t ∈ step d (.request req e), Succeeds t
  | .restart => False

theorem stepInherits {d t : State} {s : Step} (inherits : Inherits {[]} d) (builds : Builds d s)
    (ok : step d s = some t) : Inherits {[]} t := by
  cases s with
  | restart => exact builds.elim
  | request req e =>
    obtain ⟨kind,marks,succeeds⟩ := builds
    have done := succeeds t ok
    obtain ⟨⟨_,t'⟩,ran,rfl⟩ := Option.map_eq_some_iff.mp ok
    have before := repliedInherits inherits []
    cases req with
    | mknod parent name isKind link =>
      cases isKind with
      | dir => exact mkdirInherits rfl marks before ran done
      | _ => exact kind.elim
    | create parent name flags => exact createInherits rfl marks before ran done
    | _ => exact kind.elim

theorem bootInherits {opts : Options} {fs id : Volume Call}
    (bare : ∀ q x, fs.tree.find q = some x → q = []) (unmarked : marked fs fs.tree.root.ino = false) :
    Inherits {[]} (boot opts fs id) := by
  have rooted : fs.tree.find [] = some fs.tree.root := fs.tree.rooted
  refine ⟨rfl,⟨⟨fs.tree.root,none,.path⟩,rfl,rooted⟩,fun {q x} found isDir => ?_,fun one two _ => ?_,
    fun found early => absurd (bare _ _ found) early,by simp [boot,Arena.empty]⟩
  · cases bare q x found
    cases rooted.symm.trans found
    exact unmarked
  · exact (bare _ _ one).trans (bare _ _ two).symm

def Dir (d : State) (ref : Ref) (p : List FileName) : Prop :=
  ∃ i up, d.inode ref = some i ∧ d.fs.dirAt i.fd = .ok (up,p)

theorem knownDir {d : State} (inherits : Inherits {[]} d) {p : List FileName} {up : Entry}
    (there : d.fs.vol.tree.find p = some up) (isDir : up.isDir = true) : ∃ ref, Dir d ref p := by
  have at_ : ∀ {slot : Slot} {f : File}, d.fs.file slot = some f → f.entry = up →
      d.fs.dirAt slot = .ok (up,p) := by
    rintro slot f known rfl
    simp [Mount.dirAt,known,isDir,Lib.Tree.pathOfDir there isDir]
  by_cases isRoot : p = []
  · subst isRoot
    obtain ⟨f,known,atRoot⟩ := inherits.root
    exact ⟨.root,d.root,up,rfl,at_ known (Option.some.inj (atRoot.symm.trans there))⟩
  · obtain ⟨c,mem,seat⟩ := inherits.seated there isRoot
    obtain ⟨f,known,entry⟩ := seat.file
    exact ⟨.node c.addr,c.value,up,inodeNode (Arena.memAtAddr mem),at_ known entry⟩

def Finds (e : Env Call) : Prop :=
  e.fault .lookupOpen = none ∧ e.fault .lookupStat = none ∧ e.fault .lookupStatId = none

theorem seatedLookup {d : State} (inherits : Inherits {[]} d) {ref : Ref} {p : List FileName}
    {name : FileName} {entry : Entry} (dir : Dir d ref p)
    (there : d.fs.vol.tree.find (p ++ [name]) = some entry) {e : Env Call} (finds : Finds e) :
    ∃ x d' a i, doLookup ref name e d = some (.ok x,d') ∧ x.ino = some a ∧
      d'.inode (.node a) = some i ∧ i.isId = idPath (p ++ [name]) := by
  obtain ⟨i,up,known,at_⟩ := dir
  obtain ⟨c,mem,seat⟩ := inherits.seated there (by simp)
  have here : d.inodes.atKey (entry.ino,d.fs.vol.dev) = some c := seat.key ▸ Arena.memAtKey mem
  have resolves := resolveFinds finds.1 finds.2.1 at_ there inherits.dev seat.number
  have filled : getInode ref e d = some (i,d) := by simp [getInode,known,(dirAtLive at_).1]
  obtain ⟨r,d',ok,outcome,told,_⟩ := @lookupRuns ref e name d i filled
  have slot : slotted d (entry.ino,d.fs.vol.dev) = c.value := by simp [slotted,here]
  simp only [Told,resolves] at told
  rw [show slotted d ((d.fs.vol.stat entry).ino,(d.fs.vol.stat entry).dev) = c.value from slot,
    if_pos seat.live] at told
  obtain ⟨x,rfl⟩ := answeredOpen finds.2.2 seat.copy told.2
  cases outcome with
  | missed up' nothing =>
    cases known.symm.trans up'
    simp [resolves] at nothing
  | @known _ _ _ _ src up' found here' live plain named table =>
    cases known.symm.trans up'
    cases Option.some.inj (resolves.symm.trans found)
    cases Option.some.inj (here.symm.trans here')
    have now : d'.inodes.atAddr c.addr =
        some {c with value := {c.value with nlookup := c.value.nlookup + 1, src := src}} := by
      rw [table]
      exact Arena.atAddrModify (Arena.memAtAddr mem)
    exact ⟨x,d',c.addr,_,ok,named x rfl,inodeNode now,seat.isId⟩
  | built up' found key old entered dead =>
    cases known.symm.trans up'
    cases Option.some.inj (resolves.symm.trans found)
    rw [key] at old
    rcases old with old | ⟨absent,_⟩
    · cases Option.some.inj (here.symm.trans old)
      exact absurd seat.live dead
    · cases here.symm.trans absent

theorem isIdBelowSuffix {opts : Options} {fs id : Volume Call} {steps : List Step} {d : State}
    (bare : ∀ q x, fs.tree.find q = some x → q = []) (unmarked : marked fs fs.tree.root.ino = false)
    (builds : Meets step Builds (boot opts fs id) steps) (ran : run step (boot opts fs id) steps = some d)
    {p : List FileName} {name : FileName} {entry : Entry}
    (there : d.fs.vol.tree.find (p ++ [name]) = some entry) : (∃ ref, Dir d ref p) ∧
      ∀ ref e, Dir d ref p → Finds e → ∃ x d' a i, doLookup ref name e d = some (.ok x,d') ∧
        x.ino = some a ∧ d'.inode (.node a) = some i ∧
        (i.isId = true ↔ ∃ n ∈ p ++ [name], dotId <:+ n.val) := by
  have inherits : Inherits {[]} d := Lib.Run.invariant Builds (Inherits {[]}) stepInherits
    (bootInherits bare unmarked) builds ran
  obtain ⟨up,above,isDir⟩ := Lib.Tree.foundParent there
  refine ⟨knownDir inherits above isDir,fun ref e dir finds => ?_⟩
  obtain ⟨x,d',a,i,ok,ino,here,isId⟩ := seatedLookup inherits dir there finds
  exact ⟨x,d',a,i,ok,ino,here,by rw [isId,idPathIff]⟩

def makeDir : Step := .request (.mknod .root nameId .dir []) (calm 5)
def makeFile : Step := .request (.create (.node 0) nameB forWriting) (calm 6)

theorem nestedBelowSuffix : ∃ d, run step (mounted true) [makeDir,makeFile] = some d ∧
    d.fs.vol.tree.find [nameId,nameB] = some ⟨6,.reg⟩ ∧ (∃ ref, Dir d ref [nameId]) ∧
    ∀ ref e, Dir d ref [nameId] → Finds e → ∃ x d' a i, doLookup ref nameB e d = some (.ok x,d') ∧
      x.ino = some a ∧ d'.inode (.node a) = some i ∧
      (i.isId = true ↔ ∃ n ∈ [nameId,nameB], dotId <:+ n.val) := by
  have ends : (run step (mounted true) [makeDir,makeFile]).any
      (fun d => d.fs.vol.tree.find [nameId,nameB] = some ⟨6,.reg⟩) = true := by decide +kernel
  have succeed : (step (mounted true) makeDir).all (fun t => Succeeds t ∧
      (step t makeFile).all (fun u => Succeeds u) = true) = true := by decide +kernel
  obtain ⟨d,ran,there⟩ := (Option.any_eq_true _ _).mp ends
  obtain ⟨t,one,rest⟩ := Lib.Run.runCons ran
  obtain ⟨u,two,_⟩ := Lib.Run.runCons rest
  simp only [one,two,Option.all_some,decide_eq_true_eq] at succeed
  have marks : ∀ ino, Marks (calm ino) := fun _ => ⟨fun _ => ⟨rfl,rfl⟩,⟨rfl,rfl⟩,rfl⟩
  have builds : Meets step Builds (mounted true) [makeDir,makeFile] := by
    simp only [Meets,one,two]
    exact ⟨⟨trivial,marks 5,fun t' same => Option.some.inj (one.symm.trans same) ▸ succeed.1⟩,
      ⟨trivial,marks 6,fun u' same => Option.some.inj (two.symm.trans same) ▸ succeed.2⟩,trivial⟩
  have bare : ∀ q x, (emptyVolume 1 ⟨[115],okS⟩).tree.find q = some x → q = [] := fun q x found =>
    congrArg Prod.fst (show (q,x) = ([],⟨2,.dir⟩) by
      simpa [emptyVolume,Lib.Tree.bare] using Lib.Tree.foundMem.mp found)
  exact ⟨d,ran,of_decide_eq_true there,
    isIdBelowSuffix (p := [nameId]) bare rfl builds ran (of_decide_eq_true there)⟩

end F3.Driver.Inherit
