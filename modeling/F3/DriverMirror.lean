import F3.DriverAround
import F3.DriverCopies
import F3.DriverDurable
import F3.DriverStat
import F3.Lib.Mirror

/-! The ID tree as a partial copy of the shared tree: what the requests that change names keep
of it, while all system calls do what POSIX says. -/
namespace F3.Driver.Mirror
open Lib (Bytes Arena Cell Prog Act)
open Lib.Posix
open Lib.Mirror
open Fds Owners Copies

abbrev names (m : Mount Call) : List FileName → Option Entry := m.vol.tree.find

abbrev Moved (d d' : State) : Prop := Follows (names d.fs) (names d.id) (names d'.fs) (names d'.id)

abbrev Holder := Option (Nat × SrcId)

def holders (d : State) : List (Holder × Inode) :=
  (none,d.root) :: d.inodes.cells.map fun c => (some (c.addr,c.key),c.value)

/- The two files of an inode: what the copy is named, the original is named, and where the
original is a directory, its names have no other copy. -/
structure Seat (d : State) (fd idFd : Slot) : Prop where
  copy : ∀ g, d.id.file idFd = some g →
    ∃ f, d.fs.file fd = some f ∧ Pairs (names d.fs) (names d.id) f.entry g.entry
  covers : ∀ f, d.fs.file fd = some f → f.entry.isDir = true →
    Covers (names d.fs) (names d.id) f.entry ((d.id.file idFd).map File.entry)

def Filed (d : State) (entry : Entry) : Holder → Prop
  | none => names d.fs [] = some entry
  | some (_,key) => key = (entry.ino,d.fs.vol.dev)

structure Sits (d : State) (x : Holder × Inode) : Prop where
  seat : Seat d x.2.fd x.2.idFd
  dated : (∀ n, x.2.fd = .fd n → n < d.fs.next) ∧ ∀ n, x.2.idFd = .fd n → n < d.id.next
  filed : ∀ f, d.fs.file x.2.fd = some f → Filed d f.entry x.1

def Share (i j : Inode) : Prop := ∃ n, i.fd = .fd n ∧ j.fd = .fd n ∨ i.idFd = .fd n ∧ j.idFd = .fd n

abbrev Bookkept : State → State → Prop := Durable.Both (Steady Anything []) (Steady Anything [])

structure Mirrored (d : State) : Prop where
  trees : Mirrors Entry.kind Entry.kind (names d.fs) (names d.id)
  sits : ∀ x ∈ holders d, Sits d x
  apart : ∀ x ∈ holders d, ∀ y ∈ holders d, Share x.2 y.2 → x.1 = y.1
  books : Books [] d.fs ∧ Books [] d.id

section Holders
variable {d d' : State}

theorem rootHolder (d : State) : (none,d.root) ∈ holders d := List.mem_cons_self

theorem cellHolder {c : Cell SrcId Inode} (mem : c ∈ d.inodes.cells) :
    (some (c.addr,c.key),c.value) ∈ holders d :=
  List.mem_cons_of_mem _ (List.mem_map.mpr ⟨c,mem,rfl⟩)

theorem inodeHolder {ref : Ref} {i : Inode} (known : d.inode ref = some i) : ∃ h, (h,i) ∈ holders d := by
  cases ref with
  | root =>
    cases Option.some.inj known
    exact ⟨none,rootHolder d⟩
  | node a =>
    obtain ⟨c,here,rfl⟩ := Option.map_eq_some_iff.mp known
    exact ⟨_,cellHolder (Arena.atAddrMem here).1⟩

theorem inodeSeat {ref : Ref} {i : Inode} (mirrored : Mirrored d) (known : d.inode ref = some i) :
    Seat d i.fd i.idFd := by
  obtain ⟨h,mem⟩ := inodeHolder known
  exact (mirrored.sits _ mem).seat

def Table (d d' : State) : Prop := ∀ x ∈ holders d', ∃ y ∈ holders d, y.1 = x.1 ∧
  (y.2.fd = x.2.fd ∧ y.2.idFd = x.2.idFd ∨ x.2.fd = .enoent ∧ x.2.idFd = .enoent)

theorem sameTable (root : d'.root = d.root) (table : d'.inodes = d.inodes) : Table d d' := by
  intro x mem
  rw [holders,root,table] at mem
  exact ⟨x,mem,rfl,Or.inl ⟨rfl,rfl⟩⟩

theorem shapeTable (root : d'.root.fd = d.root.fd ∧ d'.root.idFd = d.root.idFd)
    (cells : shape d' = shape d) : Table d d' := by
  intro x mem
  rcases List.mem_cons.mp mem with rfl | inTable
  · exact ⟨_,rootHolder d,rfl,Or.inl ⟨root.1.symm,root.2.symm⟩⟩
  · obtain ⟨c,there,rfl⟩ := List.mem_map.mp inTable
    have here : shapeOf c ∈ shape d := cells ▸ List.mem_map.mpr ⟨c,there,rfl⟩
    obtain ⟨b,old,same⟩ := List.mem_map.mp here
    refine ⟨_,cellHolder old,?_,Or.inl ⟨congrArg Shape.fd same,congrArg Shape.idFd same⟩⟩
    rw [show b.addr = c.addr from congrArg Shape.addr same,show b.key = c.key from congrArg Shape.key same]

end Holders

section Seats
variable {d d' : State} {fd idFd : Slot}

def Still (d d' : State) (fd idFd : Slot) : Prop :=
  d'.fs.file fd = d.fs.file fd ∧ d'.id.file idFd = d.id.file idFd ∨
    d'.fs.file fd = none ∧ d'.id.file idFd = none

theorem seatStill (seat : Seat d fd idFd) (still : Still d d' fd idFd) (moved : Moved d d') :
    Seat d' fd idFd := by
  rcases still with ⟨fs,id⟩ | ⟨fs,id⟩
  · constructor
    · intro g open_
      obtain ⟨f,file,pairs⟩ := seat.copy g (id ▸ open_)
      exact ⟨f,fs.trans file,moved.pairs pairs⟩
    · intro f open_ isDir
      rw [id]
      exact moved.covers (seat.covers f (fs ▸ open_) isDir)
  · constructor
    · intro g open_
      cases id.symm.trans open_
    · intro f open_
      cases fs.symm.trans open_

theorem heldStill {x : Holder × Inode} (before : Sits d x) (fs : Held d.fs.next d.fs d'.fs)
    (id : Held d.id.next d.id d'.id) : Still d d' x.2.fd x.2.idFd :=
  Or.inl ⟨heldSlot fs before.dated.1,heldSlot id before.dated.2⟩

theorem carried (mirrored : Mirrored d) (table : Table d d')
    (still : ∀ x ∈ holders d, Still d d' x.2.fd x.2.idFd) (moved : Moved d d')
    (top : names d'.fs [] = names d.fs []) (dev : d'.fs.vol.dev = d.fs.vol.dev) (booked : Bookkept d d') :
    Mirrored d' := by
  refine ⟨moved.mirrors mirrored.trees,fun x mem => ?_,fun x memX y memY share => ?_,
    booked.1.books mirrored.books.1,booked.2.books mirrored.books.2⟩
  · obtain ⟨y,old,holder,⟨fd,idFd⟩ | ⟨fd,idFd⟩⟩ := table x mem
    · have before := mirrored.sits y old
      have now := still y old
      have seat := seatStill before.seat now moved
      rw [fd,idFd] at now seat
      have dated := before.dated
      rw [fd,idFd] at dated
      refine ⟨seat,?_,fun f file => ?_⟩
      · exact ⟨fun n isFd => Nat.lt_of_lt_of_le (dated.1 n isFd) booked.1.ages.next,
          fun n isFd => Nat.lt_of_lt_of_le (dated.2 n isFd) booked.2.ages.next⟩
      · rcases now with ⟨same,_⟩ | ⟨gone,_⟩
        · have was := before.filed f (by rw [fd]; exact same.symm.trans file)
          rw [holder] at was
          unfold Filed at was ⊢
          split at was
          · rw [top]
            exact was
          · rw [dev]
            exact was
        · cases gone.symm.trans file
    · refine ⟨⟨fun g file => ?_,fun f file => ?_⟩,⟨fun n isFd => ?_,fun n isFd => ?_⟩,fun f file => ?_⟩
      · rw [idFd] at file
        cases file
      · rw [fd] at file
        cases file
      · cases fd.symm.trans isFd
      · cases idFd.symm.trans isFd
      · rw [fd] at file
        cases file
  · obtain ⟨x',oldX,holderX,slotsX⟩ := table x memX
    obtain ⟨y',oldY,holderY,slotsY⟩ := table y memY
    rw [← holderX,← holderY]
    refine mirrored.apart x' oldX y' oldY ?_
    obtain ⟨n,⟨one,two⟩ | ⟨one,two⟩⟩ := share
    · rcases slotsX with ⟨fdX,_⟩ | ⟨fdX,_⟩ <;> rcases slotsY with ⟨fdY,_⟩ | ⟨fdY,_⟩
      · exact ⟨n,Or.inl ⟨fdX.trans one,fdY.trans two⟩⟩
      · cases fdY.symm.trans two
      · cases fdX.symm.trans one
      · cases fdX.symm.trans one
    · rcases slotsX with ⟨_,idX⟩ | ⟨_,idX⟩ <;> rcases slotsY with ⟨_,idY⟩ | ⟨_,idY⟩
      · exact ⟨n,Or.inr ⟨idX.trans one,idY.trans two⟩⟩
      · cases idY.symm.trans two
      · cases idX.symm.trans one
      · cases idX.symm.trans one

end Seats

section Adds
variable {d : State} {n : Mount Call} {t : List FileName} {y x : Entry}

theorem added (mirrored : Mirrored d)
    (adds : Adds Entry.kind Entry.kind (names d.fs) (names d.id) (names n) t y x)
    (held : Held d.id.next d.id n) (steady : Steady Anything [] d.id n)
    (other : ∀ h ∈ holders d, ∀ f g, d.fs.file h.2.fd = some f → d.id.file h.2.idFd = some g →
      Pairs (names d.fs) (names d.id) f.entry g.entry → g.entry = x → f.entry = y)
    (here : ∀ h ∈ holders d, ∀ f, d.fs.file h.2.fd = some f → f.entry.isDir = true → f.entry ≠ y) :
    Mirrored {d with id := n} := by
  refine ⟨adds.mirrors mirrored.trees,fun h mem => ?_,mirrored.apart,
    mirrored.books.1,steady.books mirrored.books.2⟩
  have before := mirrored.sits h mem
  have same := heldSlot held before.dated.2
  refine ⟨⟨fun g file => ?_,fun f file isDir => ?_⟩,⟨before.dated.1,fun k isFd => ?_⟩,before.filed⟩
  · have was := same.symm.trans file
    obtain ⟨f,open_,pairs⟩ := before.seat.copy g was
    exact ⟨f,open_,adds.pair (other h mem f g open_ was pairs) pairs⟩
  · rw [show ({d with id := n} : State).id.file h.2.idFd = d.id.file h.2.idFd from same]
    exact adds.covers (fun at_ => absurd at_ (here h mem f file isDir)) (before.seat.covers f file isDir)
  · exact Nat.lt_of_lt_of_le (before.dated.2 k isFd) held.next

theorem copyMade (mirrored : Mirrored d) {c : Call} {ino : Ino} {kind : Kind} {content : Bytes}
    {q : List FileName} {name : FileName} {v : Volume Call}
    (make : d.id.vol.make c ino kind content q name = .ok v) (tree : n.vol.tree = v.tree)
    (held : Held d.id.next d.id n) (steady : Steady Anything [] d.id n)
    (original : names d.fs (q ++ [name]) = some y) (alike : y.kind = kind)
    (here : ∀ h ∈ holders d, ∀ f, d.fs.file h.2.fd = some f → f.entry.isDir = true → f.entry ≠ y) :
    Mirrored {d with id := n} := by
  have free := (makeOk make).1
  have adds : Adds Entry.kind Entry.kind (names d.fs) (names d.id) (names n) (q ++ [name]) y ⟨ino,kind⟩ := by
    refine ⟨fun r z now => ?_,original,alike,fun r there => ?_⟩
    · rw [names,tree,madeFind make] at now
      split at now
      · rename_i isNew
        exact Or.inr ⟨isNew,(Option.some.inj now).symm⟩
      · exact Or.inl now
    · exact absurd rfl (free.2 _ (Lib.Tree.foundMem.mp there))
  refine added mirrored adds held steady (fun h _ f g _ file _ isNew => ?_) here
  obtain ⟨k,isFd⟩ := fdOfFile file
  rw [isFd] at file
  have busy := booksOpen mirrored.books.2 file
  rw [isNew] at busy
  exact absurd busy free.1

end Adds

section Paths
variable {d : State} {fd idFd : Slot}

theorem dirAtOf {m : Mount Call} {slot : Slot} {f : File} {p} (file : m.file slot = some f)
    (isDir : f.entry.isDir = true) (there : names m p = some f.entry) : m.dirAt slot = .ok (f.entry,p) := by
  simp [Mount.dirAt,file,isDir,Lib.Tree.pathOfDir there isDir]

theorem kindDir {a b : Entry} (same : a.kind = b.kind) : a.isDir = b.isDir := by
  simp [Entry.isDir,same]

theorem dirBacked (mirrored : Mirrored d) (seat : Seat d fd idFd) {x q}
    (at_ : d.id.dirAt idFd = .ok (x,q)) : ∃ y, d.fs.dirAt fd = .ok (y,q) := by
  obtain ⟨g,copy,rfl,isDir,there⟩ := dirAtFile at_
  obtain ⟨f,file,pairs⟩ := seat.copy g copy
  have original := pairs q there
  obtain ⟨y,named,alike⟩ := mirrored.trees.there there
  cases Option.some.inj (named.symm.trans original)
  exact ⟨f.entry,dirAtOf file ((kindDir alike).trans isDir) original⟩

theorem dirCovered (mirrored : Mirrored d) (seat : Seat d fd idFd) {y p x}
    (at_ : d.fs.dirAt fd = .ok (y,p)) (there : names d.id p = some x) : d.id.dirAt idFd = .ok (x,p) := by
  obtain ⟨f,file,rfl,isDir,named⟩ := dirAtFile at_
  obtain ⟨z,named',alike⟩ := mirrored.trees.there there
  cases Option.some.inj (named'.symm.trans named)
  obtain ⟨g,copy,rfl⟩ := Option.map_eq_some_iff.mp (seat.covers f file isDir p x named there)
  exact dirAtOf copy ((kindDir alike).symm.trans isDir) there

theorem samePath (mirrored : Mirrored d) (seat : Seat d fd idFd) {y p x q}
    (fs : d.fs.dirAt fd = .ok (y,p)) (id : d.id.dirAt idFd = .ok (x,q)) : q = p := by
  obtain ⟨z,at_⟩ := dirBacked mirrored seat id
  exact (Prod.mk.inj (Except.ok.inj (at_.symm.trans fs))).2

end Paths

section Removed
variable {d : State} {fd idFd : Slot} {name : FileName} {rmdir : Bool} {e : Env Call}

theorem removeTop (c : Call) (fd : Slot) (name : FileName) (rmdir : Bool) (e : Env Call) (m : Mount Call) :
    names (unlinkAt c fd name rmdir e m).2 [] = names m [] := by
  rcases unlinkAtCases c fd name rmdir e m with ⟨err,same⟩ | ⟨up,p,v,_,removed,same⟩ <;> rw [same]
  obtain ⟨_,_,_,find⟩ := removeOk removed
  exact (find []).trans (if_neg (by simp))

theorem copyRemoved (c' : Call) (mirrored : Mirrored d) (seat : Seat d fd idFd) (quiet : e.fault c' = none)
    {y p v} (at_ : d.fs.dirAt fd = .ok (y,p)) (removed : d.fs.vol.remove rmdir (p ++ [name]) = .ok v)
    {x} (there : names d.id (p ++ [name]) = some x) :
    ∃ w, d.id.vol.remove rmdir (p ++ [name]) = .ok w ∧
      unlinkAt c' idFd name rmdir e d.id = (.ok (),{d.id with vol := w}) := by
  obtain ⟨up,dir,_⟩ := Lib.Tree.foundParent there
  have atId := dirCovered mirrored seat at_ dir
  obtain ⟨z,named,alike⟩ := mirrored.trees.there there
  obtain ⟨_,_,⟨entry,found,kind⟩,_⟩ := removeOk removed
  cases Option.some.inj (named.symm.trans found)
  have leaf : d.id.vol.tree.Removable (p ++ [name]) := by
    refine ⟨by simp,fun o mem under => ?_⟩
    obtain ⟨z',named',_⟩ := mirrored.trees.there (Lib.Tree.foundMem.mpr mem)
    exact (removeRemovable removed).2 (o.1,z') (Lib.Tree.foundMem.mp named') under
  obtain ⟨w,gone⟩ := removeSucceeds there leaf
  rw [← kindDir alike,kind] at gone
  exact ⟨w,gone,by simp [unlinkAt,syscall,quiet,atId,bind,Except.bind,gone]⟩

theorem removeMoved (c : Call) {c' : Call} (mirrored : Mirrored d) (seat : Seat d fd idFd)
    (quiet : e.fault c' = none) :
    Follows (names d.fs) (names d.id) (names (unlinkAt c fd name rmdir e d.fs).2)
      (names (unlinkAt c' idFd name rmdir e d.id).2) := by
  intro q x now
  rcases unlinkAtCases c fd name rmdir e d.fs with ⟨err,fs⟩ | ⟨up,p,v,at_,removed,fs⟩ <;> rw [fs]
  · refine ⟨q,?_,rfl⟩
    rcases unlinkAtCases c' idFd name rmdir e d.id with ⟨err,id⟩ | ⟨up,p,w,_,gone,id⟩ <;> rw [id] at now
    · exact now
    · obtain ⟨_,_,_,find⟩ := removeOk gone
      rw [names,find] at now
      split at now
      · cases now
      · exact now
  · obtain ⟨_,_,_,find⟩ := removeOk removed
    have stays : ∀ {r}, r ≠ p ++ [name] → names {d.fs with vol := v} r = names d.fs r :=
      fun other => (find _).trans (if_neg other)
    rcases unlinkAtCases c' idFd name rmdir e d.id with ⟨err,id⟩ | ⟨up',p',w,atId,gone,id⟩ <;> rw [id] at now
    · refine ⟨q,now,stays fun same => ?_⟩
      obtain ⟨w,_,done⟩ := copyRemoved c' mirrored seat quiet at_ removed (same ▸ now)
      cases (congrArg Prod.fst id).symm.trans (congrArg Prod.fst done)
    · cases samePath mirrored seat at_ atId
      obtain ⟨_,_,_,findId⟩ := removeOk gone
      rw [names,findId] at now
      split at now
      · cases now
      · rename_i other
        exact ⟨q,now,stays other⟩

end Removed

section Renamed

def renamed (v : Volume Call) (old new : List FileName) : Volume Call := match v.rename old new with
  | .ok w => w
  | .error _ => v

def Fits (v w : Volume Call) (old dir new : List FileName) : Prop :=
  old <+: new ∨ v.tree.find old = none ∨ w.tree.find old = none ∧ w.tree.find new = none ∨
    w.tree.find old ≠ none ∧ w.tree.find dir ≠ none ∧
      ∀ entry ∈ v.tree.find old, Replaceable v.tree new entry
instance (v w old dir new) : Decidable (Fits v w old dir new) := by unfold Fits; infer_instance

theorem renamedCases (v : Volume Call) (old new : List FileName) :
    renamed v old new = v ∨ ¬ old <+: new ∧ ∀ q, (renamed v old new).tree.find q =
      if new <+: q then v.tree.find (old ++ q.drop new.length)
      else if old <+: q then none else v.tree.find q := by
  unfold renamed
  split
  · rename_i w done
    rcases renameOk done with ⟨rfl,_⟩ | ⟨_,_,apart,find⟩
    · exact Or.inl rfl
    · exact Or.inr ⟨apart,find⟩
  · exact Or.inl rfl

theorem renamedNothing {v : Volume Call} {old new : List FileName} (absent : v.tree.find old = none) :
    renamed v old new = v := by
  simp [renamed,Volume.rename,absent]

theorem renamedSame {v : Volume Call} {old new : List FileName} {entry} (found : v.tree.find old = some entry)
    (target : v.tree.find new = some entry) : renamed v old new = v := by
  simp [renamed,renameSame found target]

variable {v w : Volume Call} {p q : List FileName} {name newname : FileName}

theorem renamedMoves {entry up} (found : v.tree.find (p ++ [name]) = some entry)
    (apart : ¬ p ++ [name] <+: q ++ [newname]) (dir : v.tree.find q = some up) (isDir : up.isDir = true)
    (target : Replaceable v.tree (q ++ [newname]) entry)
    (other : v.tree.find (p ++ [name]) ≠ v.tree.find (q ++ [newname])) (r) :
    (renamed v (p ++ [name]) (q ++ [newname])).tree.find r =
      if q ++ [newname] <+: r then v.tree.find (p ++ [name] ++ r.drop (q ++ [newname]).length)
      else if p ++ [name] <+: r then none else v.tree.find r := by
  obtain ⟨u,done⟩ := renameSucceeds found (by simp) apart dir isDir target
  unfold renamed
  rw [done]
  rcases renameOk done with ⟨_,same⟩ | ⟨_,_,_,find⟩
  · exact absurd same other
  · exact find r

theorem below {old r : List FileName} (under : old <+: r) : old ++ r.drop old.length = r :=
  List.prefix_append_drop under |>.symm

theorem absentUnder {t : Lib.Tree FileName Entry Entry.isDir} {old r : List FileName} {x}
    (absent : t.find old = none) (there : t.find r = some x) : ¬ old <+: r := by
  rintro ⟨tail,rfl⟩
  cases (Lib.Tree.absentBelow absent tail).symm.trans there

theorem movesFollow {v' w' : Volume Call} {old new : List FileName}
    (moves : ∀ r, v'.tree.find r = if new <+: r then v.tree.find (old ++ r.drop new.length)
      else if old <+: r then none else v.tree.find r)
    (movesId : ∀ r, w'.tree.find r = if new <+: r then w.tree.find (old ++ r.drop new.length)
      else if old <+: r then none else w.tree.find r) :
    Follows v.tree.find w.tree.find v'.tree.find w'.tree.find := by
  intro r x now
  rw [movesId] at now
  split at now
  · rename_i under
    exact ⟨_,now,by rw [moves,if_pos under]⟩
  · rename_i apart
    split at now
    · cases now
    · rename_i beside
      exact ⟨r,now,by rw [moves,if_neg apart,if_neg beside]⟩

theorem linkFollows (mirrors : Mirrors Entry.kind Entry.kind v.tree.find w.tree.find)
    {w' : Volume Call} {old new : List FileName} {entry : Entry} (found : v.tree.find old = some entry)
    (target : v.tree.find new = some entry) (file : entry.isDir = false)
    (movesId : ∀ r, w'.tree.find r = if new <+: r then w.tree.find (old ++ r.drop new.length)
      else if old <+: r then none else w.tree.find r) :
    Follows v.tree.find w.tree.find v.tree.find w'.tree.find := by
  intro r x now
  rw [movesId] at now
  split at now
  · rename_i under
    by_cases here : r.drop new.length = []
    · have isNew : r = new := by rw [← below under,here,List.append_nil]
      rw [here,List.append_nil] at now
      exact ⟨old,now,by rw [isNew,target,found]⟩
    · obtain ⟨z,dir,isDir⟩ := Lib.Tree.foundAbove now here
      obtain ⟨y,named,alike⟩ := mirrors.there dir
      cases Option.some.inj (named.symm.trans found)
      cases file.symm.trans ((kindDir alike).trans isDir)
  · split at now
    · cases now
    · exact ⟨r,now,rfl⟩

theorem replaceableCopy (mirrors : Mirrors Entry.kind Entry.kind v.tree.find w.tree.find)
    {old new : List FileName} {y x : Entry} (found : v.tree.find old = some y) (copy : w.tree.find old = some x)
    (other : v.tree.find old ≠ v.tree.find new) (target : Replaceable v.tree new y) :
    Replaceable w.tree new x := by
  intro z there
  obtain ⟨y',named,alike⟩ := mirrors.there copy
  cases Option.some.inj (named.symm.trans found)
  obtain ⟨z',named',alike'⟩ := mirrors.there there
  rcases target z' named' with rfl | ⟨isDir,leaf⟩
  · exact absurd (found.trans named'.symm) other
  · refine Or.inr ⟨?_,fun o mem under => ?_⟩
    · rw [← kindDir alike',isDir,kindDir alike]
    · obtain ⟨u,original,_⟩ := mirrors.there (Lib.Tree.foundMem.mpr mem)
      exact leaf (o.1,u) (Lib.Tree.foundMem.mp original) under

theorem renameMirrors (mirrors : Mirrors Entry.kind Entry.kind v.tree.find w.tree.find)
    {up} (dir : v.tree.find q = some up) (isDir : up.isDir = true)
    (fits : Fits v w (p ++ [name]) q (q ++ [newname])) {w' : Volume Call}
    (id : w' = renamed w (p ++ [name]) (q ++ [newname]) ∨
      w' = w ∧ (w.tree.find (p ++ [name]) = none ∨ w.tree.find q = none)) :
    Follows v.tree.find w.tree.find (renamed v (p ++ [name]) (q ++ [newname])).tree.find w'.tree.find := by
  have unchanged : renamed w (p ++ [name]) (q ++ [newname]) = w → w' = w := by
    intro same
    rcases id with done | ⟨done,_⟩
    · exact done.trans same
    · exact done
  by_cases under : p ++ [name] <+: q ++ [newname]
  · have same : ∀ u : Volume Call, renamed u (p ++ [name]) (q ++ [newname]) = u := fun u =>
      (renamedCases u _ _).resolve_right fun moved => moved.1 under
    rw [same,unchanged (same w)]
    exact fun r x there => ⟨r,there,rfl⟩
  rcases fits with isUnder | absent | ⟨absent,free⟩ | ⟨copied,parent,target⟩
  · exact absurd isUnder under
  · have noCopy : w.tree.find (p ++ [name]) = none := by
      by_contra some
      obtain ⟨x,copy⟩ := Option.ne_none_iff_exists'.mp some
      obtain ⟨y,named,_⟩ := mirrors.there copy
      cases absent.symm.trans named
    rw [renamedNothing absent,unchanged (renamedNothing noCopy)]
    exact fun r x there => ⟨r,there,rfl⟩
  · rw [unchanged (renamedNothing absent)]
    intro r x there
    refine ⟨r,there,?_⟩
    rcases renamedCases v (p ++ [name]) (q ++ [newname]) with same | ⟨_,moves⟩
    · rw [same]
    · rw [moves,if_neg (absentUnder free there),if_neg (absentUnder absent there)]
  · obtain ⟨x,copy⟩ := Option.ne_none_iff_exists'.mp copied
    obtain ⟨up',dirId⟩ := Option.ne_none_iff_exists'.mp parent
    obtain ⟨y,found,alike⟩ := mirrors.there copy
    have done : w' = renamed w (p ++ [name]) (q ++ [newname]) := by
      rcases id with done | ⟨_,absent | absent⟩
      · exact done
      · exact absurd absent copied
      · exact absurd absent parent
    rw [done]
    by_cases two : v.tree.find (p ++ [name]) = v.tree.find (q ++ [newname])
    · have also := two.symm.trans found
      rw [renamedSame found also]
      rcases renamedCases w (p ++ [name]) (q ++ [newname]) with same | ⟨_,moves⟩
      · rw [same]
        exact fun r x there => ⟨r,there,rfl⟩
      · have file : y.isDir = false := by
          by_contra isDir
          have one := v.tree.single _ _ y found also (by simpa using isDir)
          exact under (one ▸ List.prefix_rfl)
        exact linkFollows mirrors found also file moves
    · have twoId : w.tree.find (p ++ [name]) ≠ w.tree.find (q ++ [newname]) := fun same =>
        two (mirrors.same copy (same.symm.trans copy))
      obtain ⟨u,named,alikeDir⟩ := mirrors.there dirId
      cases Option.some.inj (named.symm.trans dir)
      refine movesFollow (renamedMoves found under dir isDir (target y found) two) ?_
      exact renamedMoves copy under dirId ((kindDir alikeDir).symm.trans isDir)
        (replaceableCopy mirrors found copy two (target y found)) twoId

def RenameFits (d : State) (dir ndir : Inode) (name newname : FileName) : Prop :=
  match d.fs.dirAt dir.fd,d.fs.dirAt ndir.fd with
  | .ok (_,p),.ok (_,q) => Fits d.fs.vol d.id.vol (p ++ [name]) q (q ++ [newname])
  | _,_ => True
instance (d dir ndir name newname) : Decidable (RenameFits d dir ndir name newname) := by
  unfold RenameFits
  rcases d.fs.dirAt dir.fd with _ | ⟨_,p⟩ <;> rcases d.fs.dirAt ndir.fd with _ | ⟨_,q⟩ <;> infer_instance

theorem renameAtRenamed {c : Call} {fd nfd : Slot} {e : Env Call} {m : Mount Call} {x y}
    (quiet : e.fault c = none) (at_ : m.dirAt fd = .ok (x,p)) (nat : m.dirAt nfd = .ok (y,q)) :
    (renameAt c fd name nfd newname e m).2.vol = renamed m.vol (p ++ [name]) (q ++ [newname]) := by
  unfold renamed
  cases done : m.vol.rename (p ++ [name]) (q ++ [newname]) <;>
    simp [renameAt,syscall,quiet,at_,nat,bind,Except.bind,done]

theorem renameMoved {d : State} {dir ndir : Inode} {e : Env Call} {c c' : Call} (mirrored : Mirrored d)
    (seat : Seat d dir.fd dir.idFd) (nseat : Seat d ndir.fd ndir.idFd) (quiet : e.fault c = none)
    (quietId : e.fault c' = none) (fits : RenameFits d dir ndir name newname) :
    Follows (names d.fs) (names d.id) (names (renameAt c dir.fd name ndir.fd newname e d.fs).2)
      (names (renameAt c' dir.idFd name ndir.idFd newname e d.id).2) := by
  have resolved : ∀ {x p y q}, d.fs.dirAt dir.fd = .ok (x,p) → d.fs.dirAt ndir.fd = .ok (y,q) →
      Follows (names d.fs) (names d.id) (names (renameAt c dir.fd name ndir.fd newname e d.fs).2)
        (names (renameAt c' dir.idFd name ndir.idFd newname e d.id).2) := by
    intro x p y q at_ nat
    simp only [RenameFits,at_,nat] at fits
    obtain ⟨_,_,_,isDir,there⟩ := dirAtFile nat
    simp only [names,renameAtRenamed quiet at_ nat]
    refine renameMirrors mirrored.trees there isDir fits ?_
    by_cases copied : names d.id (p ++ [name]) = none ∨ names d.id q = none
    · rcases renameAtCases c' dir.idFd name ndir.idFd newname e d.id with ⟨err,id⟩ | ⟨_,_,_,_,_,atId,natId,_,_⟩
      · exact Or.inr ⟨by rw [id],copied⟩
      · cases samePath mirrored seat at_ atId
        cases samePath mirrored nseat nat natId
        exact Or.inl (renameAtRenamed quietId atId natId)
    · obtain ⟨x',copy⟩ := Option.ne_none_iff_exists'.mp (not_or.mp copied).1
      obtain ⟨y',dirId⟩ := Option.ne_none_iff_exists'.mp (not_or.mp copied).2
      obtain ⟨up,parent,_⟩ := Lib.Tree.foundParent copy
      exact Or.inl (renameAtRenamed quietId (dirCovered mirrored seat at_ parent)
        (dirCovered mirrored nseat nat dirId))
  rcases renameAtCases c dir.fd name ndir.fd newname e d.fs with ⟨err,fs⟩ | ⟨_,_,_,_,_,at_,nat,_,_⟩
  · rcases renameAtCases c' dir.idFd name ndir.idFd newname e d.id with ⟨err,id⟩ | ⟨_,_,_,_,_,atId,natId,_,_⟩
    · rw [fs,id]
      exact fun r x there => ⟨r,there,rfl⟩
    · obtain ⟨x,at_⟩ := dirBacked mirrored seat atId
      obtain ⟨y,nat⟩ := dirBacked mirrored nseat natId
      exact resolved at_ nat
  · exact resolved at_ nat

theorem renameTop (c : Call) (fd nfd : Slot) (e : Env Call) (m : Mount Call) :
    names (renameAt c fd name nfd newname e m).2 [] = names m [] := by
  rcases renameAtCases c fd name nfd newname e m with ⟨err,same⟩ | ⟨_,p,_,q,v,_,_,done,same⟩ <;> rw [same]
  rcases renameOk done with ⟨rfl,_⟩ | ⟨_,_,_,find⟩
  · rfl
  · exact (find []).trans (by simp)

end Renamed

section Copy
variable {e : Env Call} {m : Mount Call} {idDir : Slot} {name : FileName} {kind : Kind}

theorem copyThere {up q x} (calm : ∀ c, e.fault c = none) (at_ : m.dirAt idDir = .ok (up,q))
    (there : names (openIdCopy idDir name kind e m).2 (q ++ [name]) = some x) :
    ((openIdCopy idDir name kind e m).2.file (openIdCopy idDir name kind e m).1.1).map File.entry = some x := by
  obtain ⟨_,_,_,_,stays⟩ := dirAtFile at_
  have opened : Copied name q (openIdCopy idDir name kind e m).1 m (openIdCopy idDir name kind e m).2 →
      ((openIdCopy idDir name kind e m).2.file (openIdCopy idDir name kind e m).1.1).map File.entry = some x := by
    intro copied
    obtain ⟨f,file,found⟩ := copied.file
    cases Option.some.inj (there.symm.trans found)
    simp [file]
  refine opened ?_
  cases found : m.vol.tree.find (q ++ [name]) with
  | some entry => exact copyOpens kind ⟨calm _,calm _,calm _,calm _,calm _⟩ at_ (by simp [found])
  | none =>
    have missing := openPathMisses (calm .lookupOpenId) at_ found
    by_cases isDir : kind = .dir
    · subst isDir
      let made := makeAt .lookupMkdir idDir name .dir [] e m
      have same := makesDir missing (show makeAt .lookupMkdir idDir name .dir [] e m = (made.1,made.2) from rfl)
      have tree := (openPathQuiet .lookupReopen idDir name e made.2).tree
      rw [same] at there ⊢
      rw [names,tree] at there
      exact reopened (calm _) at_ (tidyHeld (makeAtTidy _ _ _ _ _ e m))
        ((makeAtGrows _ idDir name .dir [] e m).kept stays) there false
    · rcases openCreateCases .lookupCreate idDir name ⟨.read,false,false⟩ e m with
        ⟨err,failed⟩ | ⟨_,q',_,at',old,_,_⟩ | ⟨up',q',v,at',_,done⟩
      · have same : openIdCopy idDir name kind e m = ((slotOf (openPath .lookupReopen idDir name e m).1,true),
            (openPath .lookupReopen idDir name e m).2) := by
          simp [openIdCopy,bind,missing,makeIdCopy,isDir,failed,pure,slotOf,close]
        rw [same,names,(openPathQuiet .lookupReopen idDir name e m).tree] at there
        cases found.symm.trans there
      · cases Except.ok.inj (at_.symm.trans at')
        cases found.symm.trans old
      · let m1 : Mount Call := {m with vol := v}
        let made : Mount Call := m1.install ⟨⟨e.ino .lookupCreate,.reg⟩,some (up',name),.read⟩
        have same := makesFile isDir missing (show _ = (_,made) from done)
        have closed := closeQuiet (.fd m.next) e made
        have grows := openCreateGrows .lookupCreate idDir name ⟨.read,false,false⟩ e m
        rw [done] at grows
        have held : Held m.next m (close (.fd m.next) e made).2 :=
          trans_of (Held m.next) (@sameHeld _ _ m m1 rfl rfl) (openedHeld m1 _ e)
        have tree := (openPathQuiet .lookupReopen idDir name e (close (.fd m.next) e made).2).tree
        rw [same] at there ⊢
        rw [names,tree] at there
        exact reopened (calm _) at_ held ((trans_of Grows grows closed.grows).kept stays) there true

end Copy

section Lookup
variable {parent : Ref} {name : FileName} {e : Env Call} {d d' : State} {dir : Inode}
  {r : Except Errno EntryParam}

theorem seated {d1 : State} (mirrored : Mirrored d1) (id : d'.id = d1.id)
    (fs : Held d1.fs.next d1.fs d'.fs) (tree : d'.fs.vol.tree = d1.fs.vol.tree)
    (dev : d'.fs.vol.dev = d1.fs.vol.dev) (steady : Steady Anything [] d1.fs d'.fs) {h : Holder} {k : Fd}
    {copy : Slot} (each : ∀ x ∈ holders d', x ∈ holders d1 ∨ x.1 = h ∧ x.2.fd = .fd k ∧ x.2.idFd = copy)
    (new : d1.fs.next ≤ k ∧ k < d'.fs.next)
    (newId : ∀ n, copy = .fd n → n < d'.id.next ∧ ∀ y ∈ holders d1, y.2.idFd ≠ .fd n)
    (seat : Seat d' (.fd k) copy) (filed : ∀ f, d'.fs.file (.fd k) = some f → Filed d' f.entry h) :
    Mirrored d' := by
  have moved : Moved d1 d' := by
    intro q x now
    rw [id] at now
    exact ⟨q,now,by rw [names,tree]⟩
  refine ⟨moved.mirrors mirrored.trees,fun x mem => ?_,fun x memX y memY share => ?_,
    steady.books mirrored.books.1,id ▸ mirrored.books.2⟩
  · rcases each x mem with old | ⟨rfl,fd,idFd⟩
    · have before := mirrored.sits x old
      have same := heldSlot fs before.dated.1
      refine ⟨seatStill before.seat (Or.inl ⟨same,by rw [id]⟩) moved,⟨fun n isFd => ?_,?_⟩,fun f file => ?_⟩
      · exact Nat.lt_of_lt_of_le (before.dated.1 n isFd) fs.next
      · rw [id]
        exact before.dated.2
      · have was := before.filed f (same.symm.trans file)
        unfold Filed at was ⊢
        split at was
        · rw [names,tree]
          exact was
        · rw [dev]
          exact was
    · refine ⟨by rw [fd,idFd]; exact seat,⟨fun n isFd => ?_,fun n isFd => ?_⟩,fun f file => filed f (fd ▸ file)⟩
      · cases fd.symm.trans isFd
        exact new.2
      · exact (newId n (idFd.symm.trans isFd)).1
  · have apart : ∀ {z w : Holder × Inode}, z ∈ holders d1 → w.2.fd = .fd k → w.2.idFd = copy →
        ¬ Share z.2 w.2 := by
      rintro z w old fd idFd ⟨n,⟨one,two⟩ | ⟨one,two⟩⟩
      · cases fd.symm.trans two
        exact absurd ((mirrored.sits z old).dated.1 k one) (Nat.not_lt.mpr new.1)
      · exact (newId n (idFd.symm.trans two)).2 z old one
    have flip : Share y.2 x.2 := by
      obtain ⟨n,⟨one,two⟩ | ⟨one,two⟩⟩ := share
      · exact ⟨n,Or.inl ⟨two,one⟩⟩
      · exact ⟨n,Or.inr ⟨two,one⟩⟩
    rcases each x memX with oldX | ⟨holderX,fdX,idX⟩ <;> rcases each y memY with oldY | ⟨holderY,fdY,idY⟩
    · exact mirrored.apart x oldX y oldY share
    · exact absurd share (apart oldX fdY idY)
    · exact absurd flip (apart oldY fdX idX)
    · rw [holderX,holderY]

def Duplicable (d : State) (dir : Inode) (name : FileName) : Prop := ∀ entry ∈ foundAt d.fs dir.fd name,
  (slotted d (entry.ino,d.fs.vol.dev)).Live ∨ entry.kind = .dir ∨ entry.kind = .reg ∨
    foundAt d.id dir.idFd name ≠ none
instance (d dir name) : Decidable (Duplicable d dir name) := by unfold Duplicable; infer_instance

theorem unseen (mirrored : Mirrored d) {c : Cell SrcId Inode} {p : List FileName} {entry : Entry}
    (there : names d.fs (p ++ [name]) = some entry) (key : c.key = (entry.ino,d.fs.vol.dev))
    (dead : ¬ c.value.Live) (old : d.inodes.atKey c.key = some c ∨ d.inodes.atKey c.key = none ∧ c.value = {}) :
    ∀ h ∈ holders d, ∀ f, d.fs.file h.2.fd = some f → f.entry.isDir = true → f.entry ≠ entry := by
  rintro h mem f file isDir rfl
  have filed := (mirrored.sits h mem).filed f file
  rcases List.mem_cons.mp mem with rfl | inTable
  · have top := d.fs.vol.tree.single _ _ _ filed there isDir
    simp at top
  · obtain ⟨b,memB,rfl⟩ := List.mem_map.mp inTable
    have sameKey : b.key = c.key := filed.trans key.symm
    rcases old with here | ⟨absent,_⟩
    · cases Arena.sameKey memB (Arena.atKeyMem here).1 sameKey
      obtain ⟨n,isFd⟩ := fdOfFile file
      have stored : c.value.fd = .fd n := isFd
      exact dead ⟨by simp [stored],by simp [stored]⟩
    · exact Arena.atKeyAbsent absent (List.mem_map.mpr ⟨b,memB,sameKey⟩)

section Built
variable {attr : Stat} {c : Cell SrcId Inode} {copy : Slot} {up : Entry} {p : List FileName} {entry : Entry}

theorem copyMirrored (mirrored : Mirrored d) (seat : Seat d dir.fd dir.idFd)
    (at_ : d.fs.dirAt dir.fd = .ok (up,p)) (there : names d.fs (p ++ [name]) = some entry)
    (copied : CopyRan dir.idFd name entry.kind d.id copy d'.id) (held : Held d.id.next d.id d'.id)
    (steady : Steady Anything [] d.id d'.id) (dead : ¬ (slotted d (entry.ino,d.fs.vol.dev)).Live)
    (duplicable : Duplicable d dir name)
    (hidden : ∀ h ∈ holders d, ∀ f, d.fs.file h.2.fd = some f → f.entry.isDir = true → f.entry ≠ entry) :
    Mirrored {d with id := d'.id} := by
  cases copied with
  | found quiet _ =>
    refine carried mirrored (sameTable rfl rfl) (fun x mem => ?_) (fun q x now => ⟨q,?_,rfl⟩) rfl rfl
      ⟨refl_of (Steady Anything []) d.fs,steady⟩
    · exact heldStill (mirrored.sits x mem) (refl_of (Held d.fs.next) d.fs) held
    · rw [names,← quiet.tree]
      exact now
  | @made x q _ _ _ atId make tree _ _ =>
    cases samePath mirrored seat at_ atId
    refine copyMade mirrored make tree held steady there ?_ hidden
    rcases duplicable entry ((foundAtPath at_).trans there) with live | isDir | isReg | named
    · exact absurd live dead
    · rw [if_pos isDir,isDir]
    · rw [if_neg (by simp [isReg]),isReg]
    · rw [foundAtPath atId] at named
      obtain ⟨_,ok,_⟩ := makeOk make
      exact absurd ok.2.1 named

theorem copyNamed (mirrored : Mirrored d) (seat : Seat d dir.fd dir.idFd)
    (at_ : d.fs.dirAt dir.fd = .ok (up,p)) (copied : CopyRan dir.idFd name entry.kind d.id copy d'.id)
    {g : File} (file : d'.id.file copy = some g) : names d'.id (p ++ [name]) = some g.entry := by
  cases copied with
  | found quiet found =>
    have was := found g file
    unfold foundAt at was
    cases atId : d.id.dirAt dir.idFd with
    | error err => simp [atId] at was
    | ok x =>
      obtain ⟨x,q⟩ := x
      cases samePath mirrored seat at_ atId
      rw [atId] at was
      rw [names,quiet.tree]
      exact was
  | @made x q _ _ _ atId make tree _ isNew =>
    cases samePath mirrored seat at_ atId
    rw [isNew g file,names,tree]
    exact (madeFind make _).trans (if_pos rfl)

theorem parentOpen (mirrored : Mirrored d) (seat : Seat d dir.fd dir.idFd)
    (at_ : d.fs.dirAt dir.fd = .ok (up,p)) (copied : CopyRan dir.idFd name entry.kind d.id copy d'.id)
    {x} (there : names d'.id (p ++ [name]) = some x) : ∃ z, d.id.dirAt dir.idFd = .ok (z,p) := by
  cases copied with
  | found quiet _ =>
    rw [names,quiet.tree] at there
    obtain ⟨z,parent,_⟩ := Lib.Tree.foundParent there
    exact ⟨z,dirCovered mirrored seat at_ parent⟩
  | @made z q _ _ _ atId _ _ _ _ =>
    cases samePath mirrored seat at_ atId
    exact ⟨z,atId⟩

end Built

theorem answeredShut {m : Mount Call} {isId : Bool} {slot : Slot} {err : Errno}
    (calm : e.fault .lookupStatId = none) (answered : Answered e m isId slot (.error err)) :
    m.file slot = none := by
  rcases answered with ⟨_,_,failed,_⟩ | ⟨_,x,wrong⟩
  · cases file : m.file slot with
    | none => rfl
    | some f =>
      rw [fstatKnows calm file] at failed
      cases failed
  · cases wrong

theorem filledSeat {up : Entry} {p : List FileName} {file : Entry} {copy : Slot} (mirrored : Mirrored d)
    (calm : ∀ c, e.fault c = none) (seat : Seat d dir.fd dir.idFd) (at_ : d.fs.dirAt dir.fd = .ok (up,p))
    (there : names d.fs (p ++ [name]) = some file)
    (copied : copy = (openIdCopy dir.idFd name file.kind e d.id).1.1 ∧
      d'.id = (openIdCopy dir.idFd name file.kind e d.id).2)
    (ran : CopyRan dir.idFd name file.kind d.id copy d'.id) (built : Mirrored {d with id := d'.id})
    (tree : d'.fs.vol.tree = d.fs.vol.tree) (isFile : ∀ f, d'.fs.file (.fd d.fs.next) = some f → f.entry = file)
    (either : (∃ f, d'.fs.file (.fd d.fs.next) = some f) ∨ d'.id.file copy = none) :
    Seat d' (.fd d.fs.next) copy := by
  have sameNames : names d'.fs = names d.fs := by rw [names,tree]
  constructor
  · intro g open_
    rcases either with ⟨f,new⟩ | shut
    · refine ⟨f,new,isFile f new ▸ fun q now => ?_⟩
      have named := copyNamed mirrored seat at_ ran open_
      rw [sameNames,show names d.fs q = names d.fs (p ++ [name]) from built.trees.same now named]
      exact there
    · cases shut.symm.trans open_
  · intro f open_ isDir q x named now
    rw [isFile f open_] at named isDir
    rw [sameNames] at named
    cases d.fs.vol.tree.single _ _ _ named there isDir
    obtain ⟨z,atId⟩ := parentOpen mirrored seat at_ ran now
    rw [copied.1,copied.2]
    exact copyThere calm atId (copied.2 ▸ now)

theorem filledMirrored (mirrored : Mirrored d) (calm : ∀ c, e.fault c = none)
    (known : d.inode parent = some dir) (duplicable : Duplicable d dir name)
    (ok : doLookup parent name e d = some (r,d')) {attr c copy}
    (found : resolve e d.fs d.conf.srcDev dir name = some (.fd d.fs.next,attr))
    (key : c.key = (attr.ino,attr.dev)) (entry : Filled c d.fs.next copy d d')
    (fs : (∃ x, r = .ok x) ∧ (∃ f, Opened d.fs.next f d.fs d'.fs ∧ f.entry.ino = attr.ino ∧
        foundAt d.fs dir.fd name = some f.entry) ∨ (∃ err, r = .error err) ∧ Tidy d.fs d'.fs)
    (copied : copy = (openIdCopy dir.idFd name attr.kind e d.id).1.1 ∧
      d'.id = (openIdCopy dir.idFd name attr.kind e d.id).2) (id : Yields copy d.id d'.id) : Mirrored d' := by
  have looks := doLookupLooks parent name e d r d' ok
  have booked : Bookkept d d' := Durable.lookupBoth parent name e d r d' ok
  have next := lookupNext known ok found
  have held := lookupHeld ok
  have told := lookupTold known ok
  have seat := inodeSeat mirrored known
  obtain ⟨up,p,file,at_,there,_,rfl,_⟩ := resolved found
  have isKey : c.key = (file.ino,d.fs.vol.dev) := key
  have value : slotted d (file.ino,d.fs.vol.dev) = c.value := isKey ▸ slottedCell entry.old
  have kind : (d.fs.vol.stat file).kind = file.kind := rfl
  rw [kind] at copied
  have ran := openIdCopyRan dir.idFd name file.kind e d.id
  rw [← copied.1,← copied.2] at ran
  have built := copyMirrored mirrored seat at_ there ran (yieldsHeld id) booked.2 (value ▸ entry.dead) duplicable
    (unseen mirrored there isKey entry.dead entry.old)
  have isFile : ∀ f, d'.fs.file (.fd d.fs.next) = some f → f.entry = file :=
    fun f opened => filledFile ((foundAtPath at_).trans there) fs opened
  have open_ : (∃ f, d'.fs.file (.fd d.fs.next) = some f) ∨ d'.id.file copy = none := by
    rcases fs with ⟨_,f,new,_,_⟩ | ⟨⟨err,rfl⟩,_⟩
    · exact Or.inl ⟨f,new.here⟩
    · have dead : ¬ (slotted d ((d.fs.vol.stat file).ino,(d.fs.vol.stat file).dev)).Live :=
        show ¬ (slotted d (file.ino,d.fs.vol.dev)).Live from value ▸ entry.dead
      simp only [Told,found] at told
      rw [if_neg dead,kind,← copied.1] at told
      exact Or.inr (answeredShut (calm _) told.2)
  have newSeat := filledSeat mirrored calm seat at_ there copied ran built looks.fs.tree isFile open_
  refine @seated d' {d with id := d'.id} built rfl held looks.fs.tree looks.fs.dev booked.1
    (some (c.addr,c.key)) d.fs.next copy (fun x mem => ?_) ⟨Nat.le_refl _,next⟩ (fun n isFd => ?_) newSeat
    fun f open_ => ?_
  · rcases List.mem_cons.mp mem with rfl | inTable
    · rw [looks.root]
      exact Or.inl (rootHolder d)
    · obtain ⟨b,memB,rfl⟩ := List.mem_map.mp inTable
      rcases entry.cells b memB with old | ⟨addr,sameKey,fd,idFd⟩
      · exact Or.inl (cellHolder old)
      · exact Or.inr ⟨by rw [addr,sameKey],fd,idFd⟩
  · rcases id with ⟨closed,_⟩ | ⟨isCopy,opened⟩
    · cases closed.symm.trans isFd
    · cases isCopy.symm.trans isFd
      refine ⟨opened.next,fun y mem stored => ?_⟩
      exact absurd ((mirrored.sits y mem).dated.2 n stored) (Nat.not_lt.mpr opened.new)
  · rw [isFile f open_]
    show c.key = (file.ino,d'.fs.vol.dev)
    rw [looks.fs.dev]
    exact isKey

theorem lookupMirrored (mirrored : Mirrored d) (calm : ∀ c, e.fault c = none)
    (known : d.inode parent = some dir) (duplicable : Duplicable d dir name)
    (ok : doLookup parent name e d = some (r,d')) : Mirrored d' := by
  have looks := doLookupLooks parent name e d r d' ok
  have booked : Bookkept d d' := Durable.lookupBoth parent name e d r d' ok
  -- Lookups that build no inode leave the ID tree alone.
  have quiet : Table d d' → d'.id = d.id → Mirrored d' := by
    intro table id
    refine carried mirrored table (fun x mem => ?_) (fun q x now => ⟨q,id ▸ now,?_⟩) ?_ looks.fs.dev booked
    · exact heldStill (mirrored.sits x mem) (lookupHeld ok) (id ▸ refl_of (Held d.id.next) d.id)
    · rw [names,looks.fs.tree]
    · rw [names,looks.fs.tree]
  have root : d'.root.fd = d.root.fd ∧ d'.root.idFd = d.root.idFd := ⟨by rw [looks.root],by rw [looks.root]⟩
  cases lookupBooked known ok with
  | missed _ table _ id => exact quiet (sameTable looks.root table) id
  | refused _ table _ id => exact quiet (sameTable looks.root table) id
  | counted _ cells _ _ id => exact quiet (shapeTable root cells) id
  | filled found key _ entry fs copied id =>
    exact filledMirrored mirrored calm known duplicable ok found key entry fs copied id

end Lookup

end F3.Driver.Mirror
