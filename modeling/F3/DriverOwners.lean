import F3.DriverFds
import F3.DriverReplies
import F3.Lib.Custody
import Mathlib.Algebra.BigOperators.Group.List.Basic

/-! The descriptors of the driver and the places that hold them: the root, the entries of
fs.inodes and the handles that the kernel was given. -/
namespace F3.Driver.Owners
open Lib (Bytes Arena Cell Prog Act)
open Lib.Prog (keepsBind bindSome pureSome keepsOnlyIf)
open Lib.Posix
open Lib.Custody
open Fds

abbrev Desc := Side × Fd

def fileOf (d : State) (x : Desc) : Option File := (d.mount x.1).file (.fd x.2)
def IsOpen (d : State) (x : Desc) : Prop := (fileOf d x).isSome = true
instance (d x) : Decidable (IsOpen d x) := by unfold IsOpen; infer_instance

def slotFds (side : Side) : Slot → Multiset Desc
  | .fd n => {(side,n)}
  | _ => 0

def inodeFds (i : Inode) : Multiset Desc := slotFds .fs i.fd + slotFds .id i.idFd
def tableFds (t : Arena SrcId Inode) : Multiset Desc := (t.cells.map fun c => inodeFds c.value).sum
def handleFds (held : List Handle) : Multiset Desc := (held.map fun fh => slotFds fh.side fh.fd).sum

def places (d : State) (held : List Handle) : Multiset Desc :=
  inodeFds d.root + tableFds d.inodes + handleFds held

theorem slotMem {side : Side} {slot : Slot} {x : Desc} : x ∈ slotFds side slot ↔
    x.1 = side ∧ slot = .fd x.2 := by
  cases slot with
  | closed => simp [slotFds]
  | enoent => simp [slotFds]
  | fd n =>
    obtain ⟨s,m⟩ := x
    simp [slotFds,eq_comm]

theorem tableSplit {t : Arena SrcId Inode} {c} (mem : c ∈ t.cells) : ∃ rest,
    tableFds t = rest + inodeFds c.value ∧
    (∀ f, tableFds (t.modify c.addr f) = rest + inodeFds (f c.value)) ∧
    tableFds (t.erase c.key) = rest := by
  obtain ⟨l,r,split,modified,erased⟩ := Arena.splitAt mem
  refine ⟨(l.map fun c => inodeFds c.value).sum + (r.map fun c => inodeFds c.value).sum,?_,fun f => ?_,?_⟩
  · rw [tableFds,split]
    simp [add_comm,add_left_comm]
  · rw [tableFds,modified f]
    simp [add_comm,add_left_comm]
  · rw [tableFds,erased]
    simp

theorem tableEnter (t : Arena SrcId Inode) (key : SrcId) : tableFds (t.enter key {}).1 = tableFds t := by
  cases here : t.atKey key with
  | some c => rw [Arena.enterKnown {} here]
  | none =>
    rw [Arena.enterNew {} here]
    simp [tableFds,Arena.insert,inodeFds,slotFds]

theorem tableMem {t : Arena SrcId Inode} {c} (mem : c ∈ t.cells) : inodeFds c.value ≤ tableFds t := by
  obtain ⟨rest,same,_⟩ := tableSplit mem
  rw [same]
  exact Multiset.le_add_left _ _

theorem tableShape (d : State) : tableFds d.inodes =
    ((shape d).map fun s => slotFds .fs s.fd + slotFds .id s.idFd).sum := by
  simp [tableFds,shape,shapeOf,inodeFds,Function.comp_def]

theorem keptPlaces {d d' : State} (kept : Kept d d') (held : List Handle) :
    places d' held = places d held := by
  unfold places
  rw [tableShape,tableShape,kept.cells]
  simp only [inodeFds,kept.root.1,kept.root.2]

theorem keptOpen {d d' : State} (kept : Kept d d') : IsOpen d' = IsOpen d := by
  funext ⟨side,n⟩
  unfold IsOpen fileOf
  cases side with
  | fs => simp only [State.mount,kept.fs.file]
  | id => simp only [State.mount,kept.id.file]

section Moves
variable {d d' : State}

theorem yieldsMoves {s t : Slot} (fs : Yields s d.fs d'.fs) (id : Yields t d.id d'.id) :
    Moves 0 (slotFds .fs s + slotFds .id t) (IsOpen d) (IsOpen d') := by
  have each : ∀ {side slot} {m m' : Mount Call}, Yields slot m m' → ∀ n,
      ((side,n) ∈ slotFds side slot → m.file (.fd n) = none ∧ (m'.file (.fd n)).isSome = true) ∧
      ((side,n) ∉ slotFds side slot → m'.file (.fd n) = m.file (.fd n)) := by
    intro side slot m m' yields n
    cases yields with
    | nothing closed tidy => exact ⟨fun mem => by simp [closed,slotFds] at mem,fun _ => tidy.file n⟩
    | @«open» k f isFd opened =>
      subst isFd
      refine ⟨fun mem => ?_,fun other => opened.others n fun same => other (by simp [slotFds,same])⟩
      cases (show n = k by simpa [slotFds] using mem)
      exact ⟨fileNew m opened.new,by simp [opened.here]⟩
  have apart : ∀ {side other : Side} {slot : Slot} {n}, side ≠ other → (side,n) ∉ slotFds other slot :=
    fun ne mem => ne (slotMem.mp mem).1
  have single : ∀ side slot, (slotFds side slot).Nodup := by
    intro side slot
    cases slot <;> simp [slotFds]
  refine ⟨?_,?_,fun _ mem => absurd mem (Multiset.notMem_zero _),?_⟩
  · refine Multiset.nodup_add.mpr ⟨single _ _,single _ _,Multiset.disjoint_left.mpr fun {x} one two => ?_⟩
    exact absurd ((slotMem.mp one).1.symm.trans (slotMem.mp two).1) (by decide)
  · rintro ⟨side,n⟩ mem
    unfold IsOpen fileOf
    cases side with
    | fs =>
      have new := (@each .fs _ _ _ fs n).1 ((Multiset.mem_add.mp mem).resolve_right (apart (by decide)))
      simp [State.mount,new]
    | id =>
      have new := (@each .id _ _ _ id n).1 ((Multiset.mem_add.mp mem).resolve_left (apart (by decide)))
      simp [State.mount,new]
  · rintro ⟨side,n⟩ other _
    unfold IsOpen fileOf
    cases side with
    | fs => simp only [State.mount,(@each .fs _ _ _ fs n).2 fun mem =>
        other (Multiset.mem_add.mpr (Or.inl mem))]
    | id => simp only [State.mount,(@each .id _ _ _ id n).2 fun mem =>
        other (Multiset.mem_add.mpr (Or.inr mem))]

theorem closeMoves (d : State) (side : Side) (slot : Slot) (e : Env Call) :
    Moves (slotFds side slot) 0 (IsOpen d) (IsOpen (d.setMount side (close slot e (d.mount side)).2)) := by
  refine ⟨Multiset.nodup_zero,fun _ mem => absurd mem (Multiset.notMem_zero _),?_,?_⟩
  · rintro ⟨s,n⟩ mem
    obtain ⟨rfl,rfl⟩ := slotMem.mp mem
    simp [IsOpen,fileOf,closeGone]
  · rintro ⟨s,n⟩ _ other
    unfold IsOpen fileOf
    by_cases here : s = side
    · subst here
      rw [setMountMount]
      cases slot with
      | closed => rfl
      | enoent => rfl
      | fd k =>
        have apart : n ≠ k := fun same => other (by simp [slotFds,same])
        simp only [closeOther apart]
    · have same : ∀ m, (d.setMount side m).mount s = d.mount s := by
        intro m
        cases s <;> cases side <;> first | rfl | exact absurd rfl here
      simp only [same]

theorem closeStray {m : Mount Call} {slot : Slot} (e : Env Call)
    (opened : ∀ n, slot = .fd n → (m.file (.fd n)).isSome = true) : (close slot e m).2.stray = m.stray := by
  cases slot with
  | closed => rfl
  | enoent => rfl
  | fd n =>
    obtain ⟨f,known⟩ := Option.isSome_iff_exists.mp (opened n rfl)
    exact (closeOpen known e).stray

end Moves

/- No descriptor has two owners, none that is owned is closed, and none was closed while it
was not open: what an inode has under fd is the file it is filed under. -/
structure Proper (d : State) (held : List Handle) : Prop where
  owned : Owned (places d held) (IsOpen d)
  refers : ∀ c ∈ d.inodes.cells, ∀ n, c.value.fd = .fd n →
    ∃ f, d.fs.file (.fd n) = some f ∧ f.entry.ino = c.key.1
  once : d.fs.stray = [] ∧ d.id.stray = []

theorem storedPlace {d : State} {held : List Handle} {c} {n : Fd} (mem : c ∈ d.inodes.cells)
    (fd : c.value.fd = .fd n) : (.fs,n) ∈ places d held := by
  have here : ((.fs,n) : Desc) ∈ inodeFds c.value := by simp [inodeFds,fd,slotFds]
  have table := Multiset.mem_of_le (tableMem mem) here
  exact Multiset.mem_add.mpr (Or.inl (Multiset.mem_add.mpr (Or.inr table)))

theorem properMoves {d d' : State} {held held' : List Handle} {closed opened : Multiset Desc}
    (proper : Proper d held) (moves : Moves closed opened (IsOpen d) (IsOpen d'))
    (books : places d' held' + closed ≤ places d held + opened) (ages : Ages d.fs d'.fs)
    (cells : ∀ c ∈ d'.inodes.cells, ∀ n, c.value.fd = .fd n →
      (∃ b ∈ d.inodes.cells, b.key = c.key ∧ b.value.fd = .fd n) ∨
      ∃ f, d'.fs.file (.fd n) = some f ∧ f.entry.ino = c.key.1)
    (stray : (∀ x ∈ closed, IsOpen d x) → d'.fs.stray = d.fs.stray ∧ d'.id.stray = d.id.stray) :
    Proper d' held' := by
  have owned := ownedMoves proper.owned moves books
  obtain ⟨fsStray,idStray⟩ := stray (closedOpen proper.owned moves books)
  refine ⟨owned,fun c mem n fd => ?_,fsStray.trans proper.once.1,idStray.trans proper.once.2⟩
  rcases cells c mem n fd with ⟨b,old,key,same⟩ | here
  · obtain ⟨f,file,ino⟩ := proper.refers b old n same
    obtain ⟨g,now⟩ := Option.isSome_iff_exists.mp (owned.opened _ (storedPlace mem fd))
    cases (ages.old (fileOld file) now).symm.trans file
    exact ⟨_,now,key ▸ ino⟩
  · exact here

theorem tidyAges {m m' : Mount Call} (tidy : Tidy m m') : Ages m m' :=
  ⟨tidy.next,fun _ known => (tidy.file _).symm.trans known⟩

theorem keptProper {d d' : State} {held : List Handle} (kept : Kept d d') (proper : Proper d held) :
    Proper d' held := by
  refine properMoves proper (movesNone fun x => by rw [keptOpen kept]) (by rw [keptPlaces kept])
    (tidyAges kept.fs) (fun c mem n fd => Or.inl ?_) fun _ => ⟨kept.fs.stray,kept.id.stray⟩
  have here : shapeOf c ∈ shape d := kept.cells ▸ List.mem_map.mpr ⟨c,mem,rfl⟩
  obtain ⟨b,old,same⟩ := List.mem_map.mp here
  exact ⟨b,old,congrArg Shape.key same,(congrArg Shape.fd same).trans fd⟩

theorem progKept {α : Type} {p : Handler α} {r : α} (ok : p e d = some (r,d')) (kept : Prog.Keeps Kept p) :
    Kept d d' := kept e d r d' ok

theorem progProper {α : Type} {p : Handler α} {e : Env Call} {d d' : State} {a : α} {held : List Handle}
    (ok : p e d = some (a,d')) (kept : Prog.Keeps Kept p) (proper : Proper d held) : Proper d' held :=
  keptProper (kept e d a d' ok) proper

theorem properYields {d d' : State} {held held' : List Handle} {s t : Slot} (proper : Proper d held)
    (fs : Yields s d.fs d'.fs) (id : Yields t d.id d'.id)
    (books : places d' held' ≤ places d held + (slotFds .fs s + slotFds .id t))
    (cells : ∀ c ∈ d'.inodes.cells, ∀ n, c.value.fd = .fd n →
      (∃ b ∈ d.inodes.cells, b.key = c.key ∧ b.value.fd = .fd n) ∨
      ∃ f, d'.fs.file (.fd n) = some f ∧ f.entry.ino = c.key.1) : Proper d' held' := by
  have stray : ∀ {slot : Slot} {m m' : Mount Call}, Yields slot m m' → m'.stray = m.stray := by
    rintro slot m m' (⟨_,tidy⟩ | ⟨_,opened⟩)
    · exact tidy.stray
    · exact opened.stray
  have ages : Ages d.fs d'.fs := by
    rcases fs with ⟨_,tidy⟩ | ⟨_,opened⟩
    · exact tidyAges tidy
    · refine ⟨Nat.le_of_lt (Nat.lt_of_le_of_lt opened.new opened.next),fun old known => ?_⟩
      have other := Nat.ne_of_lt (Nat.lt_of_lt_of_le old opened.new)
      exact (opened.others _ other).symm.trans known
  exact properMoves proper (yieldsMoves fs id) (by rw [add_zero]; exact books) ages cells
    fun _ => ⟨stray fs,stray id⟩

section Lookup
variable {parent : Ref} {name : FileName} {e : Env Call} {d d' : State} {dir : Inode}
  {r : Except Errno EntryParam}

structure Filled (c : Cell SrcId Inode) (k : Fd) (copy : Slot) (d d' : State) : Prop where
  dead : ¬ c.value.Live
  old : d.inodes.atKey c.key = some c ∨ d.inodes.atKey c.key = none ∧ c.value = {}
  books : tableFds d'.inodes + slotFds .id c.value.idFd =
    tableFds d.inodes + (slotFds .fs (.fd k) + slotFds .id copy)
  cells : ∀ b ∈ d'.inodes.cells, b ∈ d.inodes.cells ∨
    b.addr = c.addr ∧ b.key = c.key ∧ b.value.fd = .fd k ∧ b.value.idFd = copy
  stays : ∀ b ∈ d.inodes.cells, ∃ b' ∈ d'.inodes.cells, b'.addr = b.addr

inductive Booked (name : FileName) (e : Env Call) (d : State) (dir : Inode)
    (r : Except Errno EntryParam) (d' : State) : Prop where
  | missed (nothing : resolve e d.fs d.conf.srcDev dir name = none) (table : d'.inodes = d.inodes)
      (fs : Tidy d.fs d'.fs) (id : d'.id = d.id)
  | refused {f} (nothing : resolve e d.fs d.conf.srcDev dir name = none) (table : d'.inodes = d.inodes)
      (fs : Opened d.fs.next f d.fs d'.fs) (id : d'.id = d.id)
      (why : ∃ up p entry, d.fs.dirAt dir.fd = .ok (up,p) ∧
        d.fs.vol.tree.find (p ++ [name]) = some entry ∧ (d.fs.vol.dev ≠ d.conf.srcDev ∨ entry.ino = 1))
  | counted {attr} (found : resolve e d.fs d.conf.srcDev dir name = some (.fd d.fs.next,attr))
      (cells : shape d' = shape d) (file : ∀ n, d'.fs.file (.fd n) = d.fs.file (.fd n))
      (answered : (∃ x, r = .ok x) → Tidy d.fs d'.fs) (id : d'.id = d.id)
  | filled {attr c copy} (found : resolve e d.fs d.conf.srcDev dir name = some (.fd d.fs.next,attr))
      (key : c.key = (attr.ino,attr.dev)) (naming : ∀ x, r = .ok x → x.ino = some c.addr)
      (entry : Filled c d.fs.next copy d d')
      (fs : (∃ x, r = .ok x) ∧ (∃ f, Opened d.fs.next f d.fs d'.fs ∧ f.entry.ino = attr.ino ∧
          foundAt d.fs dir.fd name = some f.entry) ∨
        (∃ err, r = .error err) ∧ Tidy d.fs d'.fs)
      (copied : copy = (openIdCopy dir.idFd name attr.kind e d.id).1.1 ∧
        d'.id = (openIdCopy dir.idFd name attr.kind e d.id).2) (id : Yields copy d.id d'.id)

theorem filledFile {name : FileName} {d d' : State} {dir : Inode} {entry : Entry} {attr : Stat}
    {r : Except Errno EntryParam} {f : File}
    (here : foundAt d.fs dir.fd name = some entry)
    (fs : (∃ x, r = .ok x) ∧ (∃ f, Opened d.fs.next f d.fs d'.fs ∧ f.entry.ino = attr.ino ∧
        foundAt d.fs dir.fd name = some f.entry) ∨ (∃ err, r = .error err) ∧ Tidy d.fs d'.fs)
    (file : d'.fs.file (.fd d.fs.next) = some f) : f.entry = entry := by
  rcases fs with ⟨_,g,opened,_,isEntry⟩ | ⟨_,tidy⟩
  · cases Option.some.inj (opened.here.symm.trans file)
    exact Option.some.inj (isEntry.symm.trans here)
  · rw [tidy.file,fileNew d.fs (Nat.le_refl _)] at file
    cases file

theorem deadFds {i : Inode} (dead : ¬ i.Live) : inodeFds i = slotFds .id i.idFd := by
  have none : slotFds .fs i.fd = 0 := by
    cases fd : i.fd with
    | fd n => exact absurd ⟨by simp [fd],by simp [fd]⟩ dead
    | closed => rfl
    | enoent => rfl
  rw [inodeFds,none,zero_add]

theorem builtFilled {c : Cell SrcId Inode} {k : Fd} {copy : Slot} {f : Inode → Inode}
    (old : d.inodes.atKey c.key = some c ∨ d.inodes.atKey c.key = none ∧ c.value = {})
    (entered : (d.inodes.enter c.key {}).1.atAddr c.addr = some c) (dead : ¬ c.value.Live)
    (fd : (f c.value).fd = .fd k) (idFd : (f c.value).idFd = copy)
    (table : d'.inodes = (d.inodes.enter c.key {}).1.modify c.addr f) : Filled c k copy d d' := by
  have mem := (Arena.atAddrMem entered).1
  refine ⟨dead,old,?_,?_,fun b there => ?_⟩
  · obtain ⟨rest,before,after,_⟩ := tableSplit mem
    rw [tableEnter] at before
    rw [table,after,before,deadFds dead]
    simp only [inodeFds,fd,idFd]
    rw [add_right_comm]
  · rw [table]
    refine Arena.allModify (fun b there other => Or.inl ?_) fun b there same => Or.inr ?_
    · exact Arena.enterOthers entered rfl b there other
    · cases Arena.onlyAt entered there same
      exact ⟨rfl,rfl,fd,idFd⟩
  · have still := (Arena.atAddrMem (Arena.atAddrEnter {} (k := c.key) (Arena.memAtAddr there))).1
    rw [table]
    exact ⟨_,List.mem_map.mpr ⟨b,still,rfl⟩,Arena.updateAddr⟩

theorem lookupBooked (known : d.inode parent = some dir) (ok : doLookup parent name e d = some (r,d')) :
    Booked name e d dir r d' := by
  have told := lookupTold known ok
  have fsSide := lookedFs known ok
  cases looked ok with
  | missed up nothing failed table =>
    cases known.symm.trans up
    have id : d'.id = d.id := by simpa only [Told,nothing] using told
    cases fsSide with
    | missed nothing fs => exact .missed nothing table fs id
    | refused nothing fs why => exact .refused nothing table fs id why
    | counted found => cases nothing.symm.trans found
    | stored found => cases nothing.symm.trans found
    | dropped found => cases nothing.symm.trans found
  | @known _ _ attr _ _ up found here live plain naming table =>
    cases known.symm.trans up
    have isLive : (slotted d (attr.ino,attr.dev)).Live := by simpa [slotted,here] using live
    have id : d'.id = d.id := by
      simp only [Told,found,if_pos isLive] at told
      exact told.1
    have cells : shape d' = shape d := modifyShape table fun _ _ _ => rfl
    cases fsSide with
    | counted found' _ next file stray =>
      exact .counted found' cells file (fun answered => ⟨next,file,stray answered⟩) id
    | missed nothing => cases nothing.symm.trans found
    | refused nothing => cases nothing.symm.trans found
    | stored found' dead => cases found.symm.trans found'; exact absurd isLive dead
    | dropped found' dead => cases found.symm.trans found'; exact absurd isLive dead
  | @built _ _ attr c _ _ up found key old entered dead plain naming table =>
    cases known.symm.trans up
    have value : slotted d (attr.ino,attr.dev) = c.value := key ▸ slottedCell old
    have id : d'.id = (openIdCopy dir.idFd name attr.kind e d.id).2 := by
      simp only [Told,found,value,if_neg dead] at told
      exact told.1
    have yields := openIdCopyYields dir.idFd name attr.kind e d.id
    rw [← id] at yields
    cases fsSide with
    | stored found' _ answered opened ino there =>
      cases found.symm.trans found'
      exact .filled found key naming (builtFilled old entered dead rfl rfl table)
        (Or.inl ⟨answered,_,opened,ino,there⟩) ⟨rfl,id⟩ yields
    | dropped found' _ failed tidy =>
      cases found.symm.trans found'
      exact .filled found key naming (builtFilled old entered dead rfl rfl table)
        (Or.inr ⟨failed,tidy⟩) ⟨rfl,id⟩ yields
    | missed nothing => cases nothing.symm.trans found
    | refused nothing => cases nothing.symm.trans found
    | counted found' live => cases found.symm.trans found'; exact absurd (value ▸ live) dead

theorem shapeCells (same : shape d' = shape d) {c} (mem : c ∈ d'.inodes.cells) :
    ∃ b ∈ d.inodes.cells, b.key = c.key ∧ b.value.fd = c.value.fd := by
  have here : shapeOf c ∈ shape d := same ▸ List.mem_map.mpr ⟨c,mem,rfl⟩
  obtain ⟨b,old,shaped⟩ := List.mem_map.mp here
  exact ⟨b,old,congrArg Shape.key shaped,congrArg Shape.fd shaped⟩

theorem lookupProper {held : List Handle} (proper : Proper d held) (known : d.inode parent = some dir)
    (answers : ∀ {newfd attr}, resolve e d.fs d.conf.srcDev dir name = some (newfd,attr) → ∃ x, r = .ok x)
    (ok : doLookup parent name e d = some (r,d')) : Proper d' held := by
  have root := (doLookupLooks parent name e d r d' ok).root
  have same : ∀ {s t : Slot}, tableFds d'.inodes = tableFds d.inodes →
      places d' held ≤ places d held + (slotFds .fs s + slotFds .id t) := by
    intro s t table
    rw [places,places,root,table]
    exact Multiset.le_add_right _ _
  have quiet : d'.id = d.id → Yields .closed d.id d'.id := fun id => .nothing rfl (id ▸ refl_of Tidy d.id)
  cases lookupBooked known ok with
  | missed _ table fs id =>
    exact properYields proper (.nothing rfl fs) (quiet id) (same (by rw [table]))
      fun c mem n fd => Or.inl ⟨c,table ▸ mem,rfl,fd⟩
  | refused _ table fs id =>
    exact properYields proper (.open rfl fs) (quiet id) (same (by rw [table]))
      fun c mem n fd => Or.inl ⟨c,table ▸ mem,rfl,fd⟩
  | counted found cells _ answered id =>
    refine properYields proper (.nothing rfl (answered (answers found))) (quiet id)
      (same (by rw [tableShape,tableShape,cells])) fun c mem n fd => Or.inl ?_
    obtain ⟨b,old,key,stored⟩ := shapeCells cells mem
    exact ⟨b,old,key,stored.trans fd⟩
  | @filled attr c copy found key _ entry fs _ id =>
    obtain ⟨_,f,opened,ino,_⟩ := fs.resolve_right fun ⟨⟨err,failed⟩,_⟩ => by
      obtain ⟨x,isOk⟩ := answers found
      cases failed.symm.trans isOk
    refine properYields proper (.open rfl opened) id ?_ fun b mem n fd => ?_
    · have books : tableFds d'.inodes ≤ tableFds d.inodes + (slotFds .fs (.fd d.fs.next) + slotFds .id copy) :=
        entry.books ▸ Multiset.le_add_right _ _
      calc places d' held = inodeFds d.root + handleFds held + tableFds d'.inodes := by
            rw [places,root,add_right_comm]
        _ ≤ inodeFds d.root + handleFds held +
            (tableFds d.inodes + (slotFds .fs (.fd d.fs.next) + slotFds .id copy)) := by gcongr
        _ = places d held + (slotFds .fs (.fd d.fs.next) + slotFds .id copy) := by
            rw [places,← add_assoc,add_right_comm (inodeFds d.root)]
    · rcases entry.cells b mem with old | ⟨_,isKey,isFd,_⟩
      · exact Or.inl ⟨b,old,rfl,fd⟩
      · cases isFd.symm.trans fd
        exact Or.inr ⟨f,opened.here,by rw [ino,isKey,key]⟩

end Lookup

section Requests
variable {e : Env Call} {d d' : State} {held : List Handle}

def handleOf : Reply → Option Handle
  | .opened fh => some fh
  | .create _ fh => some fh
  | _ => none

theorem handlePlaces (d : State) (fh : Handle) (held : List Handle) :
    places d (fh::held) = places d held + slotFds fh.side fh.fd := by
  simp only [places,handleFds,List.map_cons,List.sum_cons]
  rw [add_comm (slotFds fh.side fh.fd),← add_assoc]

theorem openedProper (proper : Proper d held) (side : Side) {k : Fd} {f : File} {m : Mount Call}
    (opened : Opened k f (d.mount side) m) : Proper (d.setMount side m) (⟨side,.fd k⟩::held) := by
  have cells : ∀ c ∈ (d.setMount side m).inodes.cells, c ∈ d.inodes.cells := by
    intro c mem
    rwa [setMountInodes] at mem
  have same : places (d.setMount side m) held = places d held := by cases side <;> rfl
  have books := handlePlaces (d.setMount side m) ⟨side,.fd k⟩ held
  rw [same] at books
  cases side with
  | fs =>
    refine properYields proper (.open rfl opened) (.nothing rfl (refl_of Tidy d.id)) ?_
      fun c mem n fd => Or.inl ⟨c,cells c mem,rfl,fd⟩
    exact le_of_eq (books.trans (by simp [slotFds]))
  | id =>
    refine properYields proper (.nothing rfl (refl_of Tidy d.fs)) (.open rfl opened) ?_
      fun c mem n fd => Or.inl ⟨c,cells c mem,rfl,fd⟩
    exact le_of_eq (books.trans (by simp [slotFds]))

theorem movedProper (proper : Proper d held) {t : Arena SrcId Inode} {held' : List Handle}
    (books : tableFds t + handleFds held' ≤ tableFds d.inodes + handleFds held)
    (cells : ∀ c ∈ t.cells, ∀ n, c.value.fd = .fd n →
      ∃ b ∈ d.inodes.cells, b.key = c.key ∧ b.value.fd = .fd n) : Proper {d with inodes := t} held' := by
  refine properMoves proper (movesNone fun _ => Iff.rfl) ?_ (refl_of Ages d.fs)
    (fun c mem n fd => Or.inl (cells c mem n fd)) fun _ => ⟨rfl,rfl⟩
  simp only [places,add_zero,add_assoc]
  gcongr

theorem fewerProper (proper : Proper d held) {held' : List Handle} (fewer : handleFds held' ≤ handleFds held) :
    Proper d held' :=
  movedProper proper (by gcongr) fun c mem n fd => ⟨c,mem,rfl,fd⟩

theorem permProper (proper : Proper d held) {held' : List Handle} (perm : held.Perm held') :
    Proper d held' :=
  fewerProper proper (le_of_eq (perm.map _).sum_eq.symm)

theorem droppedProper {fh : Handle} (proper : Proper d (fh::held)) : Proper d held :=
  fewerProper proper (Multiset.le_add_left _ _)

theorem closedProper {fh : Handle} (proper : Proper d (fh::held)) (e : Env Call) :
    Proper (d.setMount fh.side (close fh.fd e (d.mount fh.side)).2) held := by
  have moves := closeMoves d fh.side fh.fd e
  refine properMoves proper moves ?_ ?_ (fun c mem n fd => Or.inl ⟨c,?_,rfl,fd⟩) fun opened => ?_
  · rw [handlePlaces,add_zero]
    exact le_of_eq (by cases fh.side <;> rfl)
  · cases fh.side with
    | fs => exact (closeQuiet fh.fd e d.fs).ages
    | id => exact refl_of Ages d.fs
  · rwa [setMountInodes] at mem
  · have same : (close fh.fd e (d.mount fh.side)).2.stray = (d.mount fh.side).stray :=
      closeStray e fun n fd => opened (fh.side,n) (slotMem.mpr ⟨rfl,fd⟩)
    cases side : fh.side <;> rw [side] at same
    · exact ⟨same,rfl⟩
    · exact ⟨rfl,same⟩

theorem repliesProper (proper : Proper d held) (replies : List Reply) :
    Proper {d with replies := replies} held := by
  have kept : Kept d {d with replies := replies} :=
    ⟨refl_of Tidy d.fs,refl_of Tidy d.id,rfl,⟨rfl,rfl⟩,rfl⟩
  exact keptProper kept proper

theorem openRan {ino : Ref} {flags : Flags} (fresh : d.replies = [])
    (ok : sfsOpen ino flags e d = some ((),d')) :
    Kept d d' ∧ d'.replies.filterMap handleOf = [] ∨
    ∃ t side k f m, Kept d t ∧ Opened k f (t.mount side) m ∧ Kept (t.setMount side m) d' ∧
      d'.replies.filterMap handleOf = [⟨side,.fd k⟩] := by
  obtain ⟨i,d0,got,body⟩ := bindSome ok
  obtain ⟨rfl,_⟩ := getInodeSome got
  obtain ⟨_,d1,now,body⟩ := bindSome body
  cases Option.some.inj now
  obtain ⟨_,d2,started,rest⟩ := bindSome body
  have kept2 := keepsOnlyIf (startDownloadKept ino i) e _ _ _ started
  have mute : d2.replies = [] := (keepsOnlyIf (Service.startMute ino i) e _ _ _ started).trans fresh
  obtain ⟨opened,d3,opens,last⟩ := bindSome rest
  obtain ⟨isOpened,rfl⟩ := sysSome opens
  rcases reopenOpens .openHandle e (d2.mount i.side) i.slot (openFlags d0.conf.cached flags) with
    ⟨err,same⟩ | ⟨f,n,same,new⟩ <;> rw [same] at isOpened last <;> subst isOpened
  · have kept3 : Kept d2 (d2.setMount i.side (d2.mount i.side)) := mountKept d2 i.side (refl_of Tidy _)
    refine Or.inl ⟨trans_of Kept kept2 (trans_of Kept kept3 (replyKept _ e _ _ _ last)),?_⟩
    rw [replySome last]
    cases i.side <;> simp [State.setMount,mute,handleOf]
  · obtain ⟨_,d4,counted,last⟩ := bindSome last
    have silent : d4.replies = [] := (Service.setInodeMute _ _ e _ _ _ counted).trans
      (Eq.trans (by cases i.side <;> rfl) mute)
    have kept4 := progKept counted (setInodeKept ino fun _ => ⟨rfl,rfl,rfl⟩)
    refine Or.inr ⟨d2,i.side,_,f,n,kept2,new,trans_of Kept kept4 (replyKept _ e _ _ _ last),?_⟩
    rw [replySome last]
    simp [silent,handleOf]

theorem openProper {ino : Ref} {flags : Flags} (proper : Proper d held) (fresh : d.replies = [])
    (ok : sfsOpen ino flags e d = some ((),d')) : Proper d' (d'.replies.filterMap handleOf ++ held) := by
  rcases openRan fresh ok with ⟨kept,none⟩ | ⟨t,side,k,f,m,before,new,after,one⟩
  · exact none ▸ keptProper kept proper
  · exact one ▸ keptProper after (openedProper (keptProper before proper) side new)

theorem releaseRan {ino : Ref} {fh : Handle} (ok : sfsRelease ino fh e d = some ((),d')) :
    ∃ t, Kept d t ∧ Kept (t.setMount fh.side (close fh.fd e (t.mount fh.side)).2) d' := by
  obtain ⟨i,d0,got,body⟩ := bindSome ok
  obtain ⟨rfl,_⟩ := getInodeSome got
  obtain ⟨_,d1,now,body⟩ := bindSome body
  cases Option.some.inj now
  obtain ⟨_,d2,sized,body⟩ := bindSome body
  have kept2 := keepsOnlyIf (sysKept .fs (updateSizeTidy _ _)) e _ _ _ sized
  obtain ⟨_,d3,told,body⟩ := bindSome body
  have tells : Prog.Keeps Kept (do
      let relPath ← sys .fs (f3GetFilepath i.fd)
      send (.done relPath)) :=
    keepsBind (sysKept .fs (getAttrTidy _ _ _)) fun _ => sendKept _
  have kept3 := keepsOnlyIf tells e _ _ _ told
  obtain ⟨_,d4,counted,body⟩ := bindSome body
  have kept4 := progKept counted (setInodeKept ino fun _ => ⟨rfl,rfl,rfl⟩)
  obtain ⟨_,d5,closed,last⟩ := bindSome body
  obtain ⟨_,rfl⟩ := sysSome closed
  exact ⟨d4,trans_of Kept kept2 (trans_of Kept kept3 kept4),replyKept _ e _ _ _ last⟩

theorem releaseProper {ino : Ref} {fh : Handle} (proper : Proper d held) (given : fh ∈ held)
    (ok : sfsRelease ino fh e d = some ((),d')) : Proper d' (held.erase fh) := by
  obtain ⟨t,before,after⟩ := releaseRan ok
  have proper1 := permProper (keptProper before proper) (List.perm_cons_erase given)
  exact keptProper after (closedProper proper1 e)

-- The copy that is not handed out: the FS copy of an ID file is closed, the ID copy of
-- another file is left to nobody.
theorem chooseRan {parent : Ref} {name : FileName} {fd idFd : Slot} {fh : Handle}
    (ok : chooseCopy parent name fd idFd e d = some (fh,d')) :
    ∃ isNew d1, f3IsNewId .handler parent name e d = some (isNew,d1) ∧
      (isNew = true ∧ fh = ⟨.id,idFd⟩ ∧ (∃ t, Kept d t ∧ d' = t.setMount .fs (close fd e t.fs).2) ∨
       isNew = false ∧ fh = ⟨.fs,fd⟩ ∧ Kept d d') := by
  obtain ⟨isNew,d1,asked,rest⟩ := bindSome ok
  have kept1 := isNewKept _ _ _ e _ _ _ asked
  refine ⟨isNew,d1,asked,?_⟩
  cases isNew with
  | true =>
    obtain ⟨_,d2,now,one⟩ := bindSome rest
    cases Option.some.inj now
    obtain ⟨_,d3,marked,two⟩ := bindSome one
    have kept3 := sysKept .fs (markTidy _ _ _ _) e _ _ _ marked
    obtain ⟨_,d4,markedId,three⟩ := bindSome two
    have kept4 := sysKept .id (markTidy _ _ _ _) e _ _ _ markedId
    obtain ⟨_,d5,paired,four⟩ := bindSome three
    have kept5 := progKept paired
      (besideKept (fun _ => rfl) (fun _ => rfl) (fun _ => rfl) (fun _ => rfl) fun _ => rfl)
    obtain ⟨_,d6,closed,last⟩ := bindSome four
    obtain ⟨_,rfl⟩ := sysSome closed
    obtain ⟨rfl,rfl⟩ := pureSome last
    exact Or.inl ⟨rfl,rfl,d5,trans_of Kept kept1 (trans_of Kept kept3 (trans_of Kept kept4 kept5)),rfl⟩
  | false =>
    obtain ⟨rfl,rfl⟩ := pureSome rest
    exact Or.inr ⟨rfl,rfl,kept1⟩

theorem chooseProper {parent : Ref} {name : FileName} {fd idFd : Slot} {fh : Handle}
    (proper : Proper d (⟨.id,idFd⟩::⟨.fs,fd⟩::held))
    (ok : chooseCopy parent name fd idFd e d = some (fh,d')) : Proper d' (fh::held) := by
  obtain ⟨_,_,_,⟨_,rfl,t,kept,rfl⟩ | ⟨_,rfl,kept⟩⟩ := chooseRan ok
  · have swapped := permProper (keptProper kept proper) (List.Perm.swap _ _ _)
    exact closedProper swapped e
  · exact droppedProper (keptProper kept proper)

theorem finishRan {fh : Handle} {r : Except Errno EntryParam} (fresh : d.replies = [])
    (ok : finishCreate fh r e d = some ((),d')) : Kept d d' ∧ d'.replies = match r with
      | .error err => [.err (some err)]
      | .ok x => [.create x fh] := by
  cases r with
  | error err => exact ⟨replyKept _ e _ _ _ ok,by simp [replySome ok,fresh]⟩
  | ok x =>
    simp only [finishCreate,replyCreate] at ok
    cases ino : x.ino with
    | none => simp [ino,Prog.abort] at ok
    | some a =>
      simp only [ino] at ok
      obtain ⟨i,d1,got,one⟩ := bindSome ok
      obtain ⟨rfl,_⟩ := getInodeSome got
      obtain ⟨_,d2,counted,last⟩ := bindSome one
      have silent : d2.replies = [] := (Service.setInodeMute _ _ e _ _ _ counted).trans fresh
      have kept := progKept counted (setInodeKept _ fun _ => ⟨rfl,rfl,rfl⟩)
      exact ⟨trans_of Kept kept (replyKept _ e _ _ _ last),by simp [replySome last,silent]⟩

theorem finishProper {fh : Handle} {r : Except Errno EntryParam} (proper : Proper d (fh::held))
    (fresh : d.replies = []) (ok : finishCreate fh r e d = some ((),d')) :
    Proper d' (d'.replies.filterMap handleOf ++ held) := by
  obtain ⟨kept,replies⟩ := finishRan fresh ok
  have proper1 := keptProper kept proper
  cases r with
  | error err =>
    rw [replies]
    exact droppedProper proper1
  | ok x =>
    rw [replies]
    exact proper1

theorem createProper {parent : Ref} {name : FileName} {flags : Flags} (proper : Proper d held)
    (fresh : d.replies = [])
    (stats : ∀ dir ino, d.inode parent = some dir → createdIno (.create .fs) d.fs dir.fd name e = some ino →
      StatsCopy e d dir name ino True)
    (ok : sfsCreate parent name flags e d = some ((),d')) :
    Proper d' (d'.replies.filterMap handleOf ++ held) := by
  obtain ⟨dir,known,ran⟩ := createSome ok
  cases ran with
  | noFs same =>
    have none : d'.replies.filterMap handleOf = [] := by simp [same,fresh,handleOf]
    rw [none,same]
    exact repliesProper proper _
  | @noId fd m err opened failed same =>
    rcases openCreateOpens (.create .fs) e d.fs dir.fd name flags with ⟨_,wrong⟩ | ⟨f,n,done,new⟩
    · rw [opened] at wrong
      cases wrong
    · cases opened.symm.trans done
      have none : d'.replies.filterMap handleOf = [] := by simp [same,fresh,handleOf]
      rw [none,same]
      exact repliesProper (droppedProper (openedProper proper .fs new)) _
  | @chosen fd m idFd n fh d1 r d2 opened openedId chosen lookup finish =>
    rcases openCreateOpens (.create .fs) e d.fs dir.fd name flags with ⟨_,wrong⟩ | ⟨f,_,done,new⟩
    · rw [opened] at wrong
      cases wrong
    rcases openCreateOpens (.create .id) e d.id dir.idFd name flags with ⟨_,wrong⟩ | ⟨g,_,doneId,newId⟩
    · rw [openedId] at wrong
      cases wrong
    cases opened.symm.trans done
    cases openedId.symm.trans doneId
    have both : Proper {d with fs := m, id := n} (⟨.id,_⟩::⟨.fs,_⟩::held) :=
      openedProper (d := d.setMount .fs m) (openedProper proper .fs new) .id newId
    have proper1 := chooseProper both chosen
    obtain ⟨ino,number,reached,room⟩ := createReached known opened openedId chosen
    have stats1 := reachedStats reached (fun _ => room) (stats dir ino known number)
    have proper2 := lookupProper proper1 reached.known (reachedAnswers reached stats1 lookup) lookup
    have silent : d2.replies = [] := (Service.lookupMute _ _ e _ _ _ lookup).trans
      ((Service.chooseMute _ _ _ _ e _ _ _ chosen).trans fresh)
    exact finishProper proper2 silent finish

theorem mknodProper {parent : Ref} {name : FileName} {kind : Kind} {link : Bytes} (proper : Proper d held)
    (stats : ∀ dir, d.inode parent = some dir → StatsCopy e d dir name (e.ino (.mknod .fs))
      (kind = .dir ∨ kind = .lnk ∨ Copyable e d.id dir.idFd name))
    (ok : mknodSymlink parent name kind link e d = some ((),d')) : Proper d' held := by
  obtain ⟨dir,known,ran⟩ := mknodSome ok
  have makes : ∀ {m}, makeAt (.mknod .fs) dir.fd name kind link e d.fs = (.ok (),m) →
      Proper {d with fs := m} held := by
    intro m made
    have tidy := makeAtTidy (.mknod .fs) dir.fd name kind link e d.fs
    rw [made] at tidy
    exact keptProper (mountKept d .fs tidy) proper
  cases ran with
  | noFs same =>
    rw [same]
    exact repliesProper proper _
  | noId made failed same =>
    rw [same]
    exact repliesProper (progProper failed (mknodIdKept _ _ _ _ _) (makes made)) _
  | looked made copied lookup same =>
    rw [same]
    have proper1 := progProper copied (mknodIdKept _ _ _ _ _) (makes made)
    obtain ⟨reached,room⟩ := mknodReached known made copied
    have stats1 := reachedStats reached room (stats dir known)
    exact repliesProper (lookupProper proper1 reached.known (reachedAnswers reached stats1 lookup) lookup) _

-- The destructor of an erased inode closes its fd; its other descriptors are left to nobody.
theorem eraseRan {key : SrcId} (ok : eraseInode key e d = some ((),d')) :
    d.inodes.atKey key = none ∧ d' = d ∨ ∃ c, d.inodes.atKey key = some c ∧
      d' = {d with fs := (close c.value.fd e d.fs).2, inodes := d.inodes.erase key} := by
  obtain ⟨_,d1,now,rest⟩ := bindSome ok
  cases Option.some.inj now
  cases here : d.inodes.atKey key with
  | none =>
    simp only [here] at rest
    exact Or.inl ⟨rfl,(pureSome rest).2⟩
  | some c =>
    simp only [here] at rest
    obtain ⟨_,d2,closed,last⟩ := bindSome rest
    obtain ⟨_,rfl⟩ := sysSome closed
    cases Option.some.inj last
    exact Or.inr ⟨c,rfl,rfl⟩

theorem eraseProper {key : SrcId} (proper : Proper d held) (ok : eraseInode key e d = some ((),d')) :
    Proper d' held := by
  rcases eraseRan ok with ⟨_,rfl⟩ | ⟨c,here,rfl⟩
  · exact proper
  · obtain ⟨mem,rfl⟩ := Arena.atKeyMem here
    obtain ⟨others,before,_,after⟩ := tableSplit mem
    have moved : Proper {d with inodes := d.inodes.erase c.key} (⟨.fs,c.value.fd⟩::held) := by
      refine movedProper proper ?_ fun b there n fd => ⟨b,(List.mem_filter.mp there).1,rfl,fd⟩
      rw [after,before]
      simp only [handleFds,inodeFds,List.map_cons,List.sum_cons,add_assoc]
      gcongr
      exact Multiset.le_add_left _ _
    exact closedProper moved e

theorem forgetRan {ino : Ref} {n : Nat} (ok : forgetOne ino n e d = some ((),d')) :
    ∃ i t, d.inode ino = some i ∧ t = d.setInode ino (fun i => {i with nlookup := i.nlookup - n}) ∧
      Kept d t ∧ (i.nlookup ≠ n ∧ d' = t ∨ i.nlookup = n ∧ eraseInode i.src e t = some ((),d')) := by
  obtain ⟨i,d1,got,rest⟩ := bindSome ok
  obtain ⟨rfl,known,_⟩ := getInodeSome got
  split at rest
  · simp [Prog.abort] at rest
  · rename_i enough
    obtain ⟨_,d2,counted,last⟩ := bindSome rest
    have kept := progKept counted (setInodeKept ino fun _ => ⟨rfl,rfl,rfl⟩)
    cases Option.some.inj counted
    refine ⟨i,_,known,rfl,kept,?_⟩
    unfold Prog.onlyIf at last
    split at last
    · exact Or.inr ⟨by omega,last⟩
    · exact Or.inl ⟨by omega,(pureSome last).2⟩

theorem forgetProper {ino : Ref} {n : Nat} (proper : Proper d held)
    (ok : forgetOne ino n e d = some ((),d')) : Proper d' held := by
  obtain ⟨i,t,_,_,kept,⟨_,rfl⟩ | ⟨_,erased⟩⟩ := forgetRan ok
  · exact keptProper kept proper
  · exact eraseProper (keptProper kept proper) erased

theorem forgetEntryProper {x : EntryParam} (proper : Proper d held)
    (ok : forgetEntry x e d = some ((),d')) : Proper d' held := by
  unfold forgetEntry at ok
  cases ino : x.ino with
  | none => simp [ino,Prog.abort] at ok
  | some a =>
    simp only [ino] at ok
    exact forgetProper proper ok

theorem forgetAllProper {forgets : List (Ref × Nat)} (proper : Proper d held)
    (ok : forgetAll forgets e d = some ((),d')) : Proper d' held := by
  induction forgets generalizing d with
  | nil =>
    rw [(pureSome ok).2]
    exact proper
  | cons x rest ih =>
    obtain ⟨_,d1,one,more⟩ := bindSome ok
    exact ih (forgetProper proper one) more

def freed (i : Inode) : Inode := {i with fd := .enoent, idFd := .enoent, generation := i.generation + 1}

theorem takenProper {a : Nat} {c : Cell SrcId Inode} (proper : Proper d held)
    (here : d.inodes.atAddr a = some c) : Proper {d with inodes := d.inodes.modify a freed}
      (⟨.fs,c.value.fd⟩::⟨.id,c.value.idFd⟩::held) := by
  obtain ⟨mem,rfl⟩ := Arena.atAddrMem here
  obtain ⟨others,before,after,_⟩ := tableSplit mem
  refine movedProper proper ?_ ?_
  · rw [after,before]
    simp [freed,handleFds,inodeFds,slotFds,add_assoc]
  · refine Arena.allModify (fun b old _ n fd => ⟨b,old,rfl,fd⟩) fun b _ _ n fd => ?_
    cases fd

theorem releaseUnlinkedRan {x : EntryParam} (ok : releaseUnlinked x e d = some ((),d')) :
    d' = d ∨ ∃ a c, d.inodes.atAddr a = some c ∧ c.value.Live ∧
      d' = {d with
        fs := (close c.value.fd e d.fs).2
        id := (close c.value.idFd e d.id).2
        inodes := d.inodes.modify a freed} := by
  unfold releaseUnlinked at ok
  cases ino : x.ino with
  | none => simp [ino,Prog.abort] at ok
  | some a =>
    simp only [ino,Prog.onlyIf] at ok
    split at ok
    · obtain ⟨i,d1,got,rest⟩ := bindSome ok
      obtain ⟨rfl,known,_⟩ := getInodeSome got
      split at rest
      · rename_i last
        obtain ⟨_,d2,closed,two⟩ := bindSome rest
        obtain ⟨_,rfl⟩ := sysSome closed
        obtain ⟨_,d3,closedId,set⟩ := bindSome two
        obtain ⟨_,rfl⟩ := sysSome closedId
        cases Option.some.inj set
        obtain ⟨c,here,rfl⟩ := Option.map_eq_some_iff.mp known
        exact Or.inr ⟨a,c,here,last.1,rfl⟩
      · exact Or.inl (pureSome rest).2
    · exact Or.inl (pureSome ok).2

theorem releaseUnlinkedProper {x : EntryParam} (proper : Proper d held)
    (ok : releaseUnlinked x e d = some ((),d')) : Proper d' held := by
  rcases releaseUnlinkedRan ok with rfl | ⟨a,c,here,_,rfl⟩
  · exact proper
  · exact closedProper (closedProper (takenProper proper here) e) e

theorem unlinkRan {parent : Ref} {name : FileName} (ok : sfsUnlink parent name e d = some ((),d')) :
    d.conf.cached = true ∧ Kept d d' ∨ d.conf.cached = false ∧
    ∃ r d1 d2, doLookup parent name e d = some (r,d1) ∧ Kept d2 d' ∧
      (d2 = d1 ∨ ∃ x, releaseUnlinked x e d1 = some ((),d2)) := by
  obtain ⟨dir,d0,got,one⟩ := bindSome ok
  obtain ⟨rfl,_⟩ := getInodeSome got
  obtain ⟨_,d1,now,two⟩ := bindSome one
  cases Option.some.inj now
  split at two
  · rename_i cached
    exact Or.inl ⟨cached,keptNames.unlink dir name e _ _ _ two⟩
  · rename_i uncached
    obtain ⟨r,d2,lookup,rest⟩ := bindSome two
    refine Or.inr ⟨by simpa using uncached,r,d2,?_⟩
    cases r with
    | error err => exact ⟨d2,lookup,replyKept _ e _ _ _ rest,Or.inl rfl⟩
    | ok x =>
      obtain ⟨_,d3,released,last⟩ := bindSome rest
      exact ⟨d3,lookup,keptNames.unlink dir name e _ _ _ last,Or.inr ⟨x,released⟩⟩

end Requests

end F3.Driver.Owners
