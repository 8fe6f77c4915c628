import F3.DriverOwners
import F3.DriverLedgerRun
import F3.DriverOffer
import F3.DriverCluster

/-! What the driver leaves open. A descriptor that a request opens is closed again, or is
found in an entry of fs.inodes or in a handle of the kernel; so is a connection to the
client, as some entry's client_fd. -/
namespace F3.Driver.Leaks
open Lib (Bytes Arena Cell Prog Act)
open Lib.Prog (keepsBind bindSome keepsPure)
open Lib.Posix
open Lib.Custody
open Lib.Run (run Meets)
open Fds Owners
open Ledger (one delivered forgotten Returns)
open Choice (newIdExact isNewIdAt)
open Offer (isNewIdKept)

section Sockets
variable {α : Type} {e : Env Call} {d d' : State} {a : Nat}

def wires (d : State) : List (Nat × Option Nat) := d.inodes.cells.map fun c => (c.addr,c.value.clientFd)

def Recorded (d : State) : Prop := ∀ k < d.sockets, ∃ x ∈ wires d, x.2 = some k

def Unused (a : Nat) (d : State) : Prop := ∀ x ∈ wires d, x.1 = a → x.2 = none

def Wired (d d' : State) : Prop := d'.sockets = d.sockets ∧ wires d' = wires d

instance : IsPreorder State Wired where
  refl _ := ⟨rfl,rfl⟩
  trans _ _ _ one two := ⟨two.1.trans one.1,two.2.trans one.2⟩

theorem wiredRecorded (wired : Wired d d') (recorded : Recorded d) : Recorded d' := by
  intro k below
  rw [wired.1] at below
  rw [wired.2]
  exact recorded k below

theorem wiredUnused (wired : Wired d d') (unused : Unused a d) : Unused a d' := by
  unfold Unused
  rw [wired.2]
  exact unused

theorem progWired {p : Handler α} {r : α} (ok : p e d = some (r,d')) (keeps : Prog.Keeps Wired p) :
    Wired d d' := keeps e d r d' ok

theorem sysWired (side : Side) (p : Sys Call α) : Prog.Keeps Wired (sys side p) := by
  intro e d r d' ok
  rw [(sysSome ok).2]
  cases side <;> exact ⟨rfl,rfl⟩

theorem modifyWired {f : Inode → Inode} (same : ∀ i, (f i).clientFd = i.clientFd) (a : Nat) (d : State) :
    Wired d {d with inodes := d.inodes.modify a f} := by
  refine ⟨rfl,?_⟩
  simp only [wires,Arena.modify,List.map_map]
  refine List.map_congr_left fun c _ => ?_
  simp only [Function.comp_apply,Arena.update]
  split <;> simp [same]

theorem setInodeWired (ref : Ref) {f : Inode → Inode} (same : ∀ i, (f i).clientFd = i.clientFd) :
    Prog.Keeps Wired (setInode ref f) := by
  refine Prog.keepsModify fun d => ?_
  cases ref with
  | root => exact ⟨rfl,rfl⟩
  | node b => exact modifyWired same b d

theorem isNewWired (caller : Caller) (parent : Ref) (name : FileName) :
    Prog.Keeps Wired (f3IsNewId caller parent name) :=
  keepsBind (getInodeKeeps parent) fun _ => keepsBind (sysWired .fs _) fun _ => keepsPure _

theorem answerWired (generation : Nat) (newfd : Slot) (attr : Stat) :
    Prog.Keeps Wired (answerAttr a generation newfd attr) := by
  refine keepsBind (getInodeKeeps _) fun i => Prog.keepsIte ?_ (keepsPure _)
  refine keepsBind (sysWired .id _) fun r => ?_
  cases r with
  | error err => exact keepsBind (sysWired .fs _) fun _ => keepsPure _
  | ok st =>
    exact keepsBind (sysWired .fs _) fun _ =>
      keepsBind (setInodeWired _ fun _ => rfl) fun _ => keepsPure _

def Connects (e : Env Call) : Prop := e.fault .socket ≠ none ∨ e.fault .connect = none

theorem connectRecorded {c} (here : d.inodes.atAddr a = some c) (unused : Unused a d) (connects : Connects e)
    (recorded : Recorded d) (ok : (setupConn >>= fun conn => setInode (.node a) fun i =>
      {i with needsDownload := true, clientFd := conn}) e d = some ((),d')) : Recorded d' := by
  obtain ⟨conn,d1,connected,stored⟩ := bindSome ok
  cases Option.some.inj stored
  obtain ⟨mem,rfl⟩ := Arena.atAddrMem here
  have others : ∀ x ∈ wires d, ∀ k, x.2 = some k → ∀ f : Inode → Inode,
      x ∈ (d.inodes.modify c.addr f).cells.map fun c => (c.addr,c.value.clientFd) := by
    intro x old k some f
    obtain ⟨b,memB,rfl⟩ := List.mem_map.mp old
    have apart : b.addr ≠ c.addr := by
      intro same
      cases (unused _ old same).symm.trans some
    exact List.mem_map.mpr ⟨b,Arena.memModifyOther f memB apart,rfl⟩
  unfold setupConn at connected
  split at connected
  · cases Option.some.inj connected
    intro k below
    obtain ⟨x,old,some⟩ := recorded k below
    exact ⟨x,others x old k some _,some⟩
  · rename_i socket failed
    rcases connects with none | done
    · exact absurd socket none
    · cases failed.symm.trans done
  · cases Option.some.inj connected
    intro k below
    rcases Nat.lt_succ_iff_lt_or_eq.mp below with less | rfl
    · obtain ⟨x,old,some⟩ := recorded k less
      exact ⟨x,others x old k some _,some⟩
    · exact ⟨_,List.mem_map.mpr ⟨_,Arena.memModify _ mem,rfl⟩,rfl⟩

theorem attachRecorded {idParent : Slot} {name : FileName} {kind : Kind} (unused : Unused a d)
    (connects : Connects e) (recorded : Recorded d) (ok : attachCopy idParent name kind a e d = some ((),d')) : Recorded d' := by
  obtain ⟨copy,d1,opened,one⟩ := bindSome ok
  have wired := sysWired .id _ e _ _ _ opened
  obtain ⟨i,d2,got,two⟩ := bindSome one
  obtain ⟨rfl,known,_⟩ := getInodeSome got
  obtain ⟨c,here,_⟩ := Option.map_eq_some_iff.mp known
  obtain ⟨_,d3,connected,last⟩ := bindSome two
  refine wiredRecorded (progWired last (setInodeWired _ fun _ => rfl)) ?_
  have recorded2 := wiredRecorded wired recorded
  unfold Prog.onlyIf at connected
  split at connected
  · exact connectRecorded here (wiredUnused wired unused) connects recorded2 connected
  · rw [(Prog.pureSome connected).2]
    exact recorded2

theorem buildRecorded {parent : Ref} {name : FileName} {newfd : Slot} {attr : Stat} (unused : Unused a d)
    (connects : Connects e) (recorded : Recorded d) (ok : buildInode parent name a newfd attr e d = some ((),d')) : Recorded d' := by
  obtain ⟨dir,d0,got,one⟩ := bindSome ok
  obtain ⟨rfl,_⟩ := getInodeSome got
  obtain ⟨_,d1,filled,two⟩ := bindSome one
  obtain ⟨isNew,d2,asked,three⟩ := bindSome two
  obtain ⟨_,d3,chosen,last⟩ := bindSome three
  have wired : Wired d0 d3 := trans_of Wired (progWired filled (setInodeWired _ fun _ => rfl))
    (trans_of Wired (isNewWired _ _ _ e _ _ _ asked)
      (progWired chosen (Prog.keepsOnlyIf (setInodeWired _ fun _ => rfl))))
  exact attachRecorded (wiredUnused wired unused) connects (wiredRecorded wired recorded) last

theorem lookupRecorded {parent : Ref} {name : FileName} {dir r} (known : d.inode parent = some dir)
    (free : ∀ entry ∈ foundAt d.fs dir.fd name, (slotted d (entry.ino,d.fs.vol.dev)).Live ∨
      (slotted d (entry.ino,d.fs.vol.dev)).clientFd = none ∧ Connects e)
    (recorded : Recorded d) (ok : doLookup parent name e d = some (r,d')) : Recorded d' := by
  cases lookupSome known ok with
  | missed _ same => exact same ▸ recorded
  | refused _ same => exact same ▸ recorded
  | @entered m f attr c found _ _ _ key value here rest =>
    obtain ⟨_,d1,entered,last⟩ := bindSome rest
    refine wiredRecorded (answerWired _ _ _ e _ _ _ last) ?_
    have recorded1 : Recorded {d with fs := m, inodes := (d.inodes.enter c.key {}).1} := by
      intro k below
      obtain ⟨x,old,some⟩ := recorded k below
      obtain ⟨b,memB,rfl⟩ := List.mem_map.mp old
      have still := (Arena.atAddrMem (Arena.atAddrEnter {} (k := c.key) (Arena.memAtAddr memB))).1
      exact ⟨_,List.mem_map.mpr ⟨b,still,rfl⟩,some⟩
    unfold enterInode at entered
    split at entered
    · have counts : Prog.Keeps Wired (countLookup c.addr (.fd d.fs.next)) :=
        keepsBind (setInodeWired _ fun _ => rfl) fun _ => sysWired .fs _
      exact wiredRecorded (counts e _ _ _ entered) recorded1
    · rename_i dead
      obtain ⟨up,p,entry,at_,there,_,rfl,_⟩ := resolved found
      have same : slotted d (entry.ino,d.fs.vol.dev) = c.value := by
        rw [← value,key]
        rfl
      obtain ⟨none,connects⟩ := (free entry ((foundAtPath at_).trans there)).resolve_left (same ▸ dead)
      refine buildRecorded (fun x mem isAddr => ?_) connects recorded1 entered
      obtain ⟨b,memB,rfl⟩ := List.mem_map.mp mem
      rw [Arena.onlyAt here memB isAddr]
      exact same ▸ none

end Sockets

structure EntryOk (refs : Nat → Nat) (c : Cell SrcId Inode) : Prop where
  dead : ¬ c.value.Live → ∀ n, c.value.idFd ≠ .fd n
  known : 0 < refs c.addr ∨ ¬ c.value.Live ∧ c.value.clientFd = none

structure Settled (d : State) (held : List Handle) (refs : Nat → Nat) : Prop where
  all : Accounted (places d held) (IsOpen d)
  sockets : Recorded d
  start : d.root.fd = .fd 0 ∧ d.root.idFd = .fd 0
  entries : ∀ c ∈ d.inodes.cells, EntryOk refs c

section Settled
variable {α : Type} {e : Env Call} {d d' : State} {held held' : List Handle} {refs : Nat → Nat}

theorem entryShape {b c : Cell SrcId Inode} (same : shapeOf b = shapeOf c) (ok : EntryOk refs b) :
    EntryOk refs c := by
  have fd : b.value.fd = c.value.fd := congrArg Shape.fd same
  have live : b.value.Live ↔ c.value.Live := by simp only [Inode.Live,fd]
  have idFd : b.value.idFd = c.value.idFd := congrArg Shape.idFd same
  have clientFd : b.value.clientFd = c.value.clientFd := congrArg Shape.clientFd same
  have addr : b.addr = c.addr := congrArg Shape.addr same
  exact ⟨fun dead => idFd ▸ ok.dead (live.not.mpr dead),
    ok.known.imp (fun some => addr ▸ some) fun apart => ⟨live.not.mp apart.1,clientFd ▸ apart.2⟩⟩

theorem shapeWires (d : State) : wires d = (shape d).map fun s => (s.addr,s.clientFd) := by
  simp [wires,shape,shapeOf,Function.comp_def]

theorem keptSettled (kept : Kept d d') (settled : Settled d held refs) : Settled d' held refs := by
  refine ⟨?_,wiredRecorded ⟨kept.sockets,by rw [shapeWires,shapeWires,kept.cells]⟩ settled.sockets,
    ⟨kept.root.1.trans settled.start.1,kept.root.2.trans settled.start.2⟩,fun c mem => ?_⟩
  · rw [keptPlaces kept,keptOpen kept]
    exact settled.all
  · have here : shapeOf c ∈ shape d := kept.cells ▸ List.mem_map.mpr ⟨c,mem,rfl⟩
    obtain ⟨b,old,same⟩ := List.mem_map.mp here
    exact entryShape same (settled.entries b old)

theorem progSettled {p : Handler α} {r : α} (ok : p e d = some (r,d')) (kept : Prog.Keeps Kept p)
    (settled : Settled d held refs) : Settled d' held refs :=
  keptSettled (kept e d r d' ok) settled

theorem moreSettled {refs' : Nat → Nat} (more : ∀ a, refs a ≤ refs' a) (settled : Settled d held refs) :
    Settled d held refs' :=
  ⟨settled.all,settled.sockets,settled.start,fun c mem => ⟨(settled.entries c mem).dead,
    (settled.entries c mem).known.imp (fun some => Nat.lt_of_lt_of_le some (more c.addr)) id⟩⟩

theorem fdsSettled {closed opened : Multiset Desc} (settled : Settled d held refs)
    (moves : Moves closed opened (IsOpen d) (IsOpen d'))
    (books : places d held + opened ≤ places d' held' + closed) (table : d'.inodes = d.inodes)
    (root : d'.root = d.root) (sockets : d'.sockets = d.sockets) : Settled d' held' refs := by
  refine ⟨accountedMoves settled.all moves books,?_,root ▸ settled.start,table ▸ settled.entries⟩
  exact wiredRecorded ⟨sockets,by rw [wires,wires,table]⟩ settled.sockets

theorem openedSettled (settled : Settled d held refs) (side : Side) {k : Fd} {f : File} {m : Mount Call}
    (opened : Opened k f (d.mount side) m) : Settled (d.setMount side m) (⟨side,.fd k⟩::held) refs := by
  have same : places (d.setMount side m) held = places d held := by cases side <;> rfl
  have books := handlePlaces (d.setMount side m) ⟨side,.fd k⟩ held
  rw [same] at books
  cases side with
  | fs =>
    refine fdsSettled settled (yieldsMoves (.open rfl opened) (.nothing rfl (refl_of Tidy d.id))) ?_ rfl rfl rfl
    exact le_of_eq (by rw [books]; simp [slotFds])
  | id =>
    refine fdsSettled settled (yieldsMoves (.nothing rfl (refl_of Tidy d.fs)) (.open rfl opened)) ?_ rfl rfl rfl
    exact le_of_eq (by rw [books]; simp [slotFds])

theorem permSettled (settled : Settled d held refs) (perm : held.Perm held') : Settled d held' refs := by
  have same : places d held' = places d held := by
    unfold places handleFds
    rw [(perm.map fun fh => slotFds fh.side fh.fd).sum_eq]
  exact ⟨same ▸ settled.all,settled.sockets,settled.start,settled.entries⟩

theorem closedSettled {fh : Handle} (settled : Settled d (fh::held) refs) (e : Env Call) :
    Settled (d.setMount fh.side (close fh.fd e (d.mount fh.side)).2) held refs := by
  refine fdsSettled settled (closeMoves d fh.side fh.fd e) ?_ ?_ ?_ ?_
  · rw [handlePlaces,add_zero]
    exact le_of_eq (by cases fh.side <;> rfl)
  all_goals cases fh.side <;> rfl

theorem lookupSettled {parent : Ref} {name : FileName} {dir r} (settled : Settled d held refs)
    (known : d.inode parent = some dir)
    (accepts : ∀ entry ∈ foundAt d.fs dir.fd name, d.fs.vol.dev = d.conf.srcDev ∧ entry.ino ≠ 1)
    (free : ∀ entry ∈ foundAt d.fs dir.fd name, (slotted d (entry.ino,d.fs.vol.dev)).Live ∨
      (slotted d (entry.ino,d.fs.vol.dev)).clientFd = none ∧ Connects e)
    (answers : ∀ {newfd attr}, resolve e d.fs d.conf.srcDev dir name = some (newfd,attr) →
      ¬ (slotted d (attr.ino,attr.dev)).Live → ∃ x, r = .ok x)
    (ok : doLookup parent name e d = some (r,d')) : Settled d' held refs ∨
      (∃ entry ∈ foundAt d.fs dir.fd name, ¬ (slotted d (entry.ino,d.fs.vol.dev)).Live) ∧
      ∃ x, r = .ok x ∧ Settled d' held (fun a => refs a + one x a) := by
  have root := (doLookupLooks parent name e d r d' ok).root
  have sockets := lookupRecorded known free settled.sockets ok
  have start : d'.root.fd = .fd 0 ∧ d'.root.idFd = .fd 0 := root ▸ settled.start
  have quiet : d'.id = d.id → Yields .closed d.id d'.id := fun id => .nothing rfl (id ▸ refl_of Tidy d.id)
  cases lookupBooked known ok with
  | missed _ table fs id =>
    refine Or.inl ⟨?_,sockets,start,table ▸ settled.entries⟩
    refine accountedMoves settled.all (yieldsMoves (.nothing rfl fs) (quiet id)) ?_
    simp [places,root,table,slotFds]
  | refused _ _ _ _ why =>
    obtain ⟨up,p,entry,at_,there,foreign⟩ := why
    obtain ⟨dev,reserved⟩ := accepts entry ((foundAtPath at_).trans there)
    exact absurd foreign (not_or.mpr ⟨not_not.mpr dev,reserved⟩)
  | counted _ cells file _ id =>
    refine Or.inl ⟨?_,sockets,start,fun c mem => ?_⟩
    · refine accountedMoves settled.all (movesNone ?_) ?_
      · rintro ⟨side,n⟩
        cases side with
        | fs => simp only [Owners.IsOpen,fileOf,State.mount,file]
        | id => simp only [Owners.IsOpen,fileOf,State.mount,id]
      · rw [places,places,tableShape,tableShape,cells,root]
    · have here : shapeOf c ∈ shape d := cells ▸ List.mem_map.mpr ⟨c,mem,rfl⟩
      obtain ⟨b,old,same⟩ := List.mem_map.mp here
      exact entryShape same (settled.entries b old)
  | @filled attr c copy found key naming entry fs _ id =>
    obtain ⟨up,p,file,at_,there,_,rfl,_⟩ := resolved found
    have isKey : c.key = (file.ino,d.fs.vol.dev) := key
    have same : slotted d (file.ino,d.fs.vol.dev) = c.value := isKey ▸ slottedCell entry.old
    have dead : ¬ (slotted d (file.ino,d.fs.vol.dev)).Live := same ▸ entry.dead
    obtain ⟨x,rfl⟩ := answers found dead
    obtain ⟨_,f,opened,_⟩ := fs.resolve_right (by rintro ⟨⟨err,failed⟩,_⟩; cases failed)
    refine Or.inr ⟨⟨file,(foundAtPath at_).trans there,dead⟩,x,rfl,?_,sockets,start,fun b mem => ?_⟩
    · refine accountedMoves settled.all (yieldsMoves (.open rfl opened) id) ?_
      have unread : slotFds .id c.value.idFd = 0 := by
        rcases entry.old with here | ⟨_,empty⟩
        · have fd := (settled.entries c (Arena.atKeyMem here).1).dead entry.dead
          cases isFd : c.value.idFd with
          | fd n => exact absurd isFd (fd n)
          | closed => rfl
          | enoent => rfl
        · rw [empty]
          rfl
      have books := entry.books
      rw [unread,add_zero] at books
      refine le_of_eq ?_
      rw [places,places,root,books,add_zero]
      ac_rfl
    · rcases entry.cells b mem with old | ⟨isAddr,_,isFd,_⟩
      · exact ⟨(settled.entries b old).dead,
          (settled.entries b old).known.imp (fun some => Nat.lt_of_lt_of_le some (Nat.le_add_right _ _))
            fun rest => rest⟩
      · refine ⟨fun gone => absurd ⟨by simp [isFd],by simp [isFd]⟩ gone,Or.inl ?_⟩
        simp [one,naming x rfl,isAddr]

end Settled

section Requests
variable {e : Env Call} {d d' : State} {held : List Handle} {refs : Nat → Nat}

def LookClean (e : Env Call) (d : State) (dir : Inode) (name : FileName) : Prop :=
  ∀ entry ∈ foundAt d.fs dir.fd name, d.fs.vol.dev = d.conf.srcDev ∧ entry.ino ≠ 1 ∧
    ((slotted d (entry.ino,d.fs.vol.dev)).Live ∨
      ((slotted d (entry.ino,d.fs.vol.dev)).clientFd = none ∧ Connects e) ∧
      StatsCopy e d dir name entry.ino (Copyable e d.id dir.idFd name))

theorem cleanSettled {parent : Ref} {name : FileName} {dir r} (settled : Settled d held refs)
    (known : d.inode parent = some dir) (clean : LookClean e d dir name)
    (ok : doLookup parent name e d = some (r,d')) : Settled d' held refs ∨
      (∃ entry ∈ foundAt d.fs dir.fd name, ¬ (slotted d (entry.ino,d.fs.vol.dev)).Live) ∧
      ∃ x, r = .ok x ∧ Settled d' held (fun a => refs a + one x a) := by
  refine lookupSettled settled known (fun entry found => ?_) (fun entry found => ?_) (fun found dead => ?_) ok
  · obtain ⟨dev,reserved,_⟩ := clean entry found
    exact ⟨dev,reserved⟩
  · exact (clean entry found).2.2.imp id And.left
  · obtain ⟨up,p,entry,at_,there,_,rfl,_⟩ := resolved found
    refine statsAnswered known ok found fun other found' => ?_
    cases found'.symm.trans ((foundAtPath at_).trans there)
    exact ((clean entry found').2.2.resolve_left dead).2

theorem lookupRequest {parent : Ref} {name : FileName} (settled : Settled d held refs)
    (fresh : d.replies = []) (clean : ∀ dir ∈ d.inode parent, LookClean e d dir name)
    (ok : sfsLookup parent name e d = some ((),d')) :
    Settled d' held (fun a => refs a + delivered a d'.replies) := by
  obtain ⟨r,d1,lookup,last⟩ := bindSome ok
  obtain ⟨dir,known,_⟩ := lookupOpened lookup
  have mute : d1.replies = [] := (Service.lookupMute _ _ e _ _ _ lookup).trans fresh
  rcases cleanSettled settled known (clean dir known) lookup with same | ⟨_,x,rfl,more⟩
  · have settled1 : Settled d' held refs := by
      cases r with
      | error err => cases err <;> exact progSettled last (replyKept _) same
      | ok x => exact progSettled last (replyKept _) same
    exact moreSettled (fun a => Nat.le_add_right _ _) settled1
  · have replies := replySome last
    have told : ∀ a, delivered a d'.replies = one x a := by simp [replies,mute,delivered,Ledger.named]
    simp only [told]
    exact progSettled last (replyKept _) more

theorem openRequest {ino : Ref} {flags : Flags} (settled : Settled d held refs) (fresh : d.replies = [])
    (ok : sfsOpen ino flags e d = some ((),d')) :
    Settled d' (d'.replies.filterMap handleOf ++ held) refs := by
  rcases openRan fresh ok with ⟨kept,none⟩ | ⟨t,side,k,f,m,before,new,after,one⟩
  · exact none ▸ keptSettled kept settled
  · exact one ▸ keptSettled after (openedSettled (keptSettled before settled) side new)

theorem releaseRequest {ino : Ref} {fh : Handle} (settled : Settled d held refs) (given : fh ∈ held)
    (ok : sfsRelease ino fh e d = some ((),d')) : Settled d' (held.erase fh) refs := by
  obtain ⟨t,before,after⟩ := releaseRan ok
  have settled1 := permSettled (keptSettled before settled) (List.perm_cons_erase given)
  exact keptSettled after (closedSettled settled1 e)

/- A create that leaves nothing behind: it fails before it opened anything, or it makes an
ID file and reaches its end. -/
def CreateClean (e : Env Call) (d : State) (dir : Inode) (name : FileName) (flags : Flags) : Prop :=
  (openCreate (.create .fs) dir.fd name flags e d.fs).1.isOk = false ∨
  (openCreate (.create .id) dir.idFd name flags e d.id).1.isOk = true ∧
  isNewId d.fs dir name = true ∧ Tests e ∧ e.fault .lookupOpen = none ∧ e.fault .lookupStat = none ∧
  d.fs.vol.dev = d.conf.srcDev ∧ ∀ ino ∈ createdIno (.create .fs) d.fs dir.fd name e, ino ≠ 1 ∧
    StatsCopy e d dir name ino True ∧
    ((slotted d (ino,d.fs.vol.dev)).Live ∨ (slotted d (ino,d.fs.vol.dev)).clientFd = none ∧ Connects e)

theorem chooseSettled {parent : Ref} {name : FileName} {fd idFd : Slot} {fh : Handle} {dir up p}
    (settled : Settled d (⟨.id,idFd⟩::⟨.fs,fd⟩::held) refs) (known : d.inode parent = some dir)
    (at_ : d.fs.dirAt dir.fd = .ok (up,p)) (tests : Tests e) (isNew : isNewId d.fs dir name = true)
    (ok : chooseCopy parent name fd idFd e d = some (fh,d')) : Settled d' (fh::held) refs := by
  obtain ⟨b,d1,asked,outcome⟩ := chooseRan ok
  have yes : b = true := (newIdExact tests known at_ asked).1.trans ((isNewIdAt at_ name).symm.trans isNew)
  rcases outcome with ⟨_,rfl,t,kept,rfl⟩ | ⟨no,_⟩
  · have swapped := permSettled (keptSettled kept settled) (List.Perm.swap _ _ _)
    exact closedSettled swapped e
  · cases yes.symm.trans no

theorem createRequest {parent : Ref} {name : FileName} {flags : Flags} (settled : Settled d held refs)
    (fresh : d.replies = []) (clean : ∀ dir ∈ d.inode parent, CreateClean e d dir name flags)
    (ok : sfsCreate parent name flags e d = some ((),d')) :
    Settled d' (d'.replies.filterMap handleOf ++ held) (fun a => refs a + delivered a d'.replies) := by
  obtain ⟨dir,known,ran⟩ := createSome ok
  cases ran with
  | noFs same =>
    have kept : Kept d d' := same ▸ ⟨refl_of Tidy d.fs,refl_of Tidy d.id,rfl,⟨rfl,rfl⟩,rfl⟩
    have none : d'.replies.filterMap handleOf = [] := by simp [same,fresh,handleOf]
    exact none ▸ moreSettled (fun a => Nat.le_add_right _ _) (keptSettled kept settled)
  | noId opened failed same =>
    obtain ⟨err,failed⟩ := failed
    rcases clean dir known with noFs | ⟨openedId,_⟩
    · simp [opened,Except.isOk,Except.toBool] at noFs
    · simp [failed,Except.isOk,Except.toBool] at openedId
  | @chosen fd m idFd n fh d1 r d2 opened openedId chosen lookup finish =>
    have noFs : ¬ (openCreate (.create .fs) dir.fd name flags e d.fs).1.isOk = false := by
      simp [opened,Except.isOk,Except.toBool]
    obtain ⟨_,isNew,tests,opens,stats,dev,here⟩ := (clean dir known).resolve_left noFs
    rcases openCreateOpens (.create .fs) e d.fs dir.fd name flags with ⟨_,wrong⟩ | ⟨f,_,done,new⟩
    · rw [opened] at wrong
      cases wrong
    rcases openCreateOpens (.create .id) e d.id dir.idFd name flags with ⟨_,wrong⟩ | ⟨g,_,doneId,newId⟩
    · rw [openedId] at wrong
      cases wrong
    cases opened.symm.trans done
    cases openedId.symm.trans doneId
    have both : Settled {d with fs := m, id := n} (⟨.id,_⟩::⟨.fs,_⟩::held) refs :=
      openedSettled (d := d.setMount .fs m) (openedSettled settled .fs new) .id newId
    obtain ⟨ino,number,reached,room⟩ := createReached known opened openedId chosen
    obtain ⟨reserved,copy,free⟩ := here ino number
    obtain ⟨up,p,entry,was,at1,found,rfl⟩ := reached.named
    obtain ⟨up',p',_,was',now,_⟩ := openCreateOk opened
    cases was.symm.trans was'
    have grows : Grows d.fs m := by
      have all := openCreateGrows (.create .fs) dir.fd name flags e d.fs
      rwa [opened] at all
    have settled1 := chooseSettled both (by cases parent <;> exact known) now tests
      ((isNewIdKept grows was now).trans isNew) chosen
    have stats1 := reachedStats reached (fun _ => room) copy
    have dev1 : d1.fs.vol.dev = d1.conf.srcDev := by rw [reached.dev,reached.conf,dev]
    have only : ∀ other ∈ foundAt d1.fs dir.fd name, other = entry := by
      intro other there
      exact Option.some.inj (there.symm.trans ((foundAtPath at1).trans found))
    have slot : ∀ key, slotted d1 key = slotted d key := fun key => by simp [slotted,reached.inodes]
    have looked := lookupSettled settled1 reached.known
      (fun other there => by rw [only other there]; exact ⟨dev1,reserved⟩)
      (fun other there => by rw [only other there,reached.dev,slot]; exact free)
      (fun found _ => reachedAnswers reached stats1 lookup found) lookup
    have answered := reachedAnswers reached stats1 lookup (resolveFinds opens stats at1 found dev1 reserved)
    obtain ⟨x,rfl⟩ := answered
    have silent : d2.replies = [] := (Service.lookupMute _ _ e _ _ _ lookup).trans
      ((Service.chooseMute _ _ _ _ e _ _ _ chosen).trans fresh)
    obtain ⟨kept,replies⟩ := finishRan silent finish
    rw [replies]
    refine keptSettled kept ?_
    rcases looked with same | ⟨_,y,isOk,more⟩
    · exact moreSettled (fun a => Nat.le_add_right _ _) same
    · cases isOk
      exact more

theorem takenSettled {a : Nat} {c : Cell SrcId Inode} (settled : Settled d held refs)
    (here : d.inodes.atAddr a = some c) (live : c.value.Live) :
    Settled {d with inodes := d.inodes.modify a freed}
      (⟨.fs,c.value.fd⟩::⟨.id,c.value.idFd⟩::held) refs := by
  obtain ⟨mem,rfl⟩ := Arena.atAddrMem here
  obtain ⟨others,before,after,_⟩ := tableSplit mem
  have known := (settled.entries c mem).known.resolve_right fun dead => dead.1 live
  refine ⟨?_,?_,settled.start,?_⟩
  · refine accountedMoves settled.all (movesNone fun _ => Iff.rfl) (le_of_eq ?_)
    simp only [places,after,before,handleFds,inodeFds,freed,slotFds,List.map_cons,List.sum_cons]
    simp only [add_zero]
    ac_rfl
  · exact wiredRecorded (modifyWired (f := freed) (fun _ => rfl) c.addr d) settled.sockets
  · refine Arena.allModify (fun b old _ => settled.entries b old) fun b _ same => ?_
    refine ⟨fun _ n fd => ?_,Or.inl (same ▸ known)⟩
    cases fd

theorem unlinkRequest {parent : Ref} {name : FileName} (settled : Settled d held refs)
    (clean : d.conf.cached = true ∨ ∀ dir ∈ d.inode parent, LookClean e d dir name ∧
      ∀ entry ∈ foundAt d.fs dir.fd name, (slotted d (entry.ino,d.fs.vol.dev)).Live)
    (ok : sfsUnlink parent name e d = some ((),d')) : Settled d' held refs := by
  rcases unlinkRan ok with ⟨_,kept⟩ | ⟨uncached,r,d1,d2,lookup,kept,rest⟩
  · exact keptSettled kept settled
  · obtain ⟨dir,known,_⟩ := lookupOpened lookup
    obtain ⟨looks,live⟩ := clean.resolve_left (by simp [uncached]) dir known
    have settled1 : Settled d1 held refs := by
      rcases cleanSettled settled known looks lookup with same | ⟨⟨entry,found,dead⟩,_⟩
      · exact same
      · exact absurd (live entry found) dead
    refine keptSettled kept ?_
    rcases rest with rfl | ⟨x,released⟩
    · exact settled1
    · rcases releaseUnlinkedRan released with rfl | ⟨a,c,here,isLive,rfl⟩
      · exact settled1
      · exact closedSettled (closedSettled (takenSettled settled1 here isLive) e) e

def Shut (d : State) (c : Cell SrcId Inode) : Prop :=
  d.fs.file c.value.fd = none ∧ d.id.file c.value.idFd = none ∧ c.value.clientFd = none

theorem shutFds {slot : Slot} (side : Side) (shut : (d.mount side).file slot = none) :
    ∀ x ∈ slotFds side slot, ¬ IsOpen d x := by
  intro x mem
  cases slot with
  | fd n =>
    cases Multiset.mem_singleton.mp mem
    simp [Owners.IsOpen,fileOf,shut]
  | closed => cases Multiset.notMem_zero _ mem
  | enoent => cases Multiset.notMem_zero _ mem

theorem eraseSettled {key : SrcId} {c : Cell SrcId Inode} (settled : Settled d held refs)
    (here : d.inodes.atKey key = some c) (shut : d.id.file c.value.idFd = none)
    (apart : c.value.clientFd = none) (e : Env Call) :
    Settled {d with fs := (close c.value.fd e d.fs).2, inodes := d.inodes.erase key} held refs := by
  obtain ⟨mem,rfl⟩ := Arena.atKeyMem here
  obtain ⟨others,before,_,after⟩ := tableSplit mem
  refine ⟨?_,?_,settled.start,fun b there => settled.entries b (List.mem_filter.mp there).1⟩
  · have moves := movesAlso (closeMoves d .fs c.value.fd e)
      (shutFds (d := d.setMount .fs (close c.value.fd e d.fs).2) .id shut)
    refine accountedMoves settled.all moves (le_of_eq ?_)
    simp only [places,after,before,inodeFds]
    ac_rfl
  · intro k below
    obtain ⟨x,old,some⟩ := settled.sockets k below
    obtain ⟨b,memB,rfl⟩ := List.mem_map.mp old
    refine ⟨_,List.mem_map.mpr ⟨b,List.mem_filter.mpr ⟨memB,?_⟩,rfl⟩,some⟩
    simp only [decide_not,Bool.not_eq_eq_eq_not,Bool.not_true,decide_eq_false_iff_not]
    intro same
    rw [Arena.sameKey memB mem same,apart] at some
    cases some

theorem lessSettled {refs' : Nat → Nat} (settled : Settled d held refs)
    (less : ∀ c ∈ d.inodes.cells, 0 < refs c.addr → 0 < refs' c.addr ∨
      ¬ c.value.Live ∧ c.value.clientFd = none) : Settled d held refs' :=
  ⟨settled.all,settled.sockets,settled.start,fun c mem => ⟨(settled.entries c mem).dead,
    (settled.entries c mem).known.elim (less c mem) Or.inr⟩⟩

/- The last count of an entry is given back when its other descriptors are closed, and the
kernel's last reference is the last count, or that of an entry with nothing open. -/
def ForgetClean (d : State) (refs : Nat → Nat) : Ref → Nat → Prop
  | .root,_ => True
  | .node a,n => ∀ c ∈ d.inodes.atAddr a,
      (c.value.nlookup = n → ∀ b ∈ d.inodes.atKey c.value.src,
        d.id.file b.value.idFd = none ∧ b.value.clientFd = none) ∧
      (refs a ≤ n → c.value.nlookup = n ∧ c.value.src = c.key ∨ ¬ c.value.Live ∧ c.value.clientFd = none)

structure Shrinks (d d' : State) : Prop where
  opens : ∀ x, IsOpen d' x → IsOpen d x
  cells : ∀ c ∈ d.inodes.cells, (∃ b ∈ d'.inodes.cells, shapeOf b = shapeOf c) ∨ Shut d' c

theorem fileShut (side : Side) {slot : Slot} (opens : ∀ x, IsOpen d' x → IsOpen d x)
    (shut : (d.mount side).file slot = none) : (d'.mount side).file slot = none := by
  cases slot with
  | fd n =>
    refine Option.not_isSome_iff_eq_none.mp fun isSome => ?_
    have before : IsOpen d (side,n) := opens (side,n) isSome
    simp [Owners.IsOpen,fileOf,shut] at before
  | closed => rfl
  | enoent => rfl

theorem shapeShut {b c : Cell SrcId Inode} (same : shapeOf b = shapeOf c) (shut : Shut d b) : Shut d c := by
  have fd : b.value.fd = c.value.fd := congrArg Shape.fd same
  have idFd : b.value.idFd = c.value.idFd := congrArg Shape.idFd same
  have clientFd : b.value.clientFd = c.value.clientFd := congrArg Shape.clientFd same
  exact ⟨fd ▸ shut.1,idFd ▸ shut.2.1,clientFd ▸ shut.2.2⟩

instance : IsPreorder State Shrinks where
  refl _ := ⟨fun _ => id,fun c mem => Or.inl ⟨c,mem,rfl⟩⟩
  trans d1 d2 d3 one two := by
    refine ⟨fun x isOpen => one.opens x (two.opens x isOpen),fun c mem => ?_⟩
    rcases one.cells c mem with ⟨b,there,same⟩ | ⟨fs,id,socket⟩
    · rcases two.cells b there with ⟨b',there',same'⟩ | shut
      · exact Or.inl ⟨b',there',same'.trans same⟩
      · exact Or.inr (shapeShut same shut)
    · exact Or.inr ⟨fileShut .fs two.opens fs,fileShut .id two.opens id,socket⟩

theorem keptShrinks (kept : Kept d d') : Shrinks d d' := by
  refine ⟨fun x isOpen => ?_,fun c mem => Or.inl ?_⟩
  · rwa [keptOpen kept] at isOpen
  · have here : shapeOf c ∈ shape d' := kept.cells ▸ List.mem_map.mpr ⟨c,mem,rfl⟩
    obtain ⟨b,old,same⟩ := List.mem_map.mp here
    exact ⟨b,old,same⟩

theorem eraseShrinks {key : SrcId} {c : Cell SrcId Inode} (here : d.inodes.atKey key = some c)
    (shut : d.id.file c.value.idFd = none) (apart : c.value.clientFd = none) (e : Env Call) :
    Shrinks d {d with fs := (close c.value.fd e d.fs).2, inodes := d.inodes.erase key} := by
  obtain ⟨mem,rfl⟩ := Arena.atKeyMem here
  have moves := closeMoves d .fs c.value.fd e
  refine ⟨fun x isOpen => ?_,fun b old => ?_⟩
  · have stays : x ∉ slotFds .fs c.value.fd := fun gone => moves.gone x gone isOpen
    exact (moves.others x (Multiset.notMem_zero x) stays).mp isOpen
  · by_cases same : b.key = c.key
    · cases Arena.sameKey old mem same
      refine Or.inr ⟨?_,shut,apart⟩
      cases fd : c.value.fd with
      | fd n => exact closeGone n e d.fs
      | closed => rfl
      | enoent => rfl
    · exact Or.inl ⟨b,List.mem_filter.mpr ⟨old,by simpa using same⟩,rfl⟩

theorem forgetSettled {a n : Nat} (settled : Settled d held refs) (clean : ForgetClean d refs (.node a) n)
    (ok : forgetOne (.node a) n e d = some ((),d')) :
    Settled d' held (fun b => refs b - if b = a then n else 0) ∧ Shrinks d d' := by
  obtain ⟨i,t,known,counted,kept,rest⟩ := forgetRan ok
  obtain ⟨c,here,rfl⟩ := Option.map_eq_some_iff.mp known
  obtain ⟨last,final⟩ := clean c here
  have settled1 := keptSettled kept settled
  have mem := (Arena.atAddrMem here).1
  have table : t.inodes = d.inodes.modify a (fun i => {i with nlookup := i.nlookup - n}) := by
    rw [counted]
    rfl
  have hereT : t.inodes.atAddr a = some {c with value := {c.value with nlookup := c.value.nlookup - n}} := by
    rw [table]
    exact Arena.atAddrModify here
  -- The only entry that loses references is the one at the address.
  have less : ∀ u : State, Settled u held refs → (∀ b ∈ u.inodes.cells, b ∈ t.inodes.cells) →
      (c.value.nlookup = n ∧ c.value.src = c.key → ∀ b ∈ u.inodes.cells, b.addr ≠ a) →
      Settled u held (fun b => refs b - if b = a then n else 0) := by
    intro u ready from_ gone
    refine lessSettled ready fun b memB some => ?_
    by_cases same : b.addr = a
    · have isCell := Arena.onlyAt hereT (from_ b memB) same
      by_cases more : n < refs a
      · left
        simp only [same,if_pos]
        omega
      · rcases final (by omega) with erased | dead
        · exact absurd same (gone erased b memB)
        · right
          rw [isCell]
          exact dead
    · left
      simpa [same] using some
  rcases rest with ⟨more,rfl⟩ | ⟨isLast,erased⟩
  · exact ⟨less d' settled1 (fun b memB => memB) fun ⟨isLast,_⟩ => absurd isLast more,keptShrinks kept⟩
  · have keyed : ∀ {b}, t.inodes.atKey c.value.src = some b → t.id.file b.value.idFd = none ∧
        b.value.clientFd = none := by
      intro b found
      have there : shapeOf b ∈ shape d := kept.cells ▸ List.mem_map.mpr ⟨b,(Arena.atKeyMem found).1,rfl⟩
      obtain ⟨b0,old,same⟩ := List.mem_map.mp there
      have key : b0.key = c.value.src := (congrArg Shape.key same).trans (Arena.atKeyMem found).2
      obtain ⟨idFd,clientFd⟩ := last isLast b0 (key ▸ Arena.memAtKey old)
      have sameFd : b0.value.idFd = b.value.idFd := congrArg Shape.idFd same
      have sameClient : b0.value.clientFd = b.value.clientFd := congrArg Shape.clientFd same
      have id : t.id = d.id := by rw [counted]; rfl
      exact ⟨by rw [id,← sameFd]; exact idFd,sameClient ▸ clientFd⟩
    rcases eraseRan erased with ⟨none,rfl⟩ | ⟨b,found,rfl⟩
    · refine ⟨less d' settled1 (fun b memB => memB) fun ⟨_,src⟩ => ?_,keptShrinks kept⟩
      have there := Arena.memAtKey (Arena.atAddrMem hereT).1
      rw [src] at none
      cases none.symm.trans there
    · obtain ⟨shut,apart⟩ := keyed found
      refine ⟨less _ (eraseSettled settled1 found shut apart e)
        (fun b memB => (List.mem_filter.mp memB).1) fun ⟨_,src⟩ b' memB same => ?_,
        trans_of Shrinks (keptShrinks kept) (eraseShrinks found shut apart e)⟩
      obtain ⟨memT,other⟩ := List.mem_filter.mp memB
      rw [Arena.onlyAt hereT memT same,src] at other
      simp at other

def ForgetsClean (e : Env Call) (d : State) (refs : Nat → Nat) : List (Ref × Nat) → Prop
  | [] => True
  | (.root,_)::_ => True
  | (.node a,n)::rest => ForgetClean d refs (.node a) n ∧ match forgetOne (.node a) n e d with
      | some (_,t) => ForgetsClean e t (fun b => refs b - if b = a then n else 0) rest
      | none => True

theorem forgetsSettled {forgets : List (Ref × Nat)} (settled : Settled d held refs)
    (returns : Returns refs forgets) (clean : ForgetsClean e d refs forgets)
    (ok : forgetAll forgets e d = some ((),d')) :
    Settled d' held (fun b => refs b - Ledger.returned b forgets) ∧ Shrinks d d' := by
  induction forgets generalizing d refs with
  | nil =>
    rw [(Prog.pureSome ok).2]
    exact ⟨settled,refl_of Shrinks d⟩
  | cons x rest ih =>
    obtain ⟨ino,n⟩ := x
    obtain ⟨_,d1,one,more⟩ := bindSome ok
    cases ino with
    | root => cases returns
    | node a =>
      obtain ⟨now,later⟩ := clean
      simp only [one] at later
      obtain ⟨settled1,shrinks⟩ := forgetSettled settled now one
      obtain ⟨settled2,shrinks2⟩ := ih settled1 returns.2.2 later more
      refine ⟨?_,trans_of Shrinks shrinks shrinks2⟩
      have same : (fun b => refs b - Ledger.returned b ((.node a,n)::rest)) =
          fun b => refs b - (if b = a then n else 0) - Ledger.returned b rest := by
        funext b
        simp only [Ledger.returned,Ref.node.injEq,eq_comm (a := a)]
        omega
      rw [same]
      exact settled2

def Remains (d d' : State) : Prop := ∀ c ∈ d.inodes.cells, ∃ b ∈ d'.inodes.cells, b.addr = c.addr

instance : IsPreorder State Remains where
  refl _ := fun c mem => ⟨c,mem,rfl⟩
  trans _ _ _ one two := by
    intro c mem
    obtain ⟨b,memB,sameB⟩ := one c mem
    obtain ⟨a,memA,sameA⟩ := two b memB
    exact ⟨a,memA,sameA.trans sameB⟩

theorem sameRemains (same : d'.inodes = d.inodes) : Remains d d' := fun c mem => ⟨c,same ▸ mem,rfl⟩

theorem shapeRemains (same : shape d' = shape d) : Remains d d' := by
  intro c mem
  have here : shapeOf c ∈ shape d' := same ▸ List.mem_map.mpr ⟨c,mem,rfl⟩
  obtain ⟨b,old,same⟩ := List.mem_map.mp here
  exact ⟨b,old,congrArg Shape.addr same⟩

theorem lookupRemains {parent : Ref} {name : FileName} {r} (ok : doLookup parent name e d = some (r,d')) :
    Remains d d' := by
  obtain ⟨dir,known,_⟩ := lookupOpened ok
  cases lookupBooked known ok with
  | missed _ table => exact sameRemains table
  | refused _ table => exact sameRemains table
  | counted _ cells => exact shapeRemains cells
  | filled _ _ _ entry => exact entry.stays

theorem createRemains {parent : Ref} {name : FileName} {flags : Flags} (fresh : d.replies = [])
    (ok : sfsCreate parent name flags e d = some ((),d')) : Remains d d' := by
  obtain ⟨dir,known,ran⟩ := createSome ok
  cases ran with
  | noFs same => exact sameRemains (by rw [same])
  | noId _ _ same => exact sameRemains (by rw [same])
  | chosen opened openedId chosen lookup finish =>
    obtain ⟨_,_,reached,_⟩ := createReached known opened openedId chosen
    have silent := (Service.lookupMute _ _ e _ _ _ lookup).trans
      ((Service.chooseMute _ _ _ _ e _ _ _ chosen).trans fresh)
    have last := shapeRemains (finishRan silent finish).1.cells
    exact trans_of Remains (sameRemains reached.inodes) (trans_of Remains (lookupRemains lookup) last)

theorem openRemains {ino : Ref} {flags : Flags} (fresh : d.replies = [])
    (ok : sfsOpen ino flags e d = some ((),d')) : Remains d d' := by
  rcases openRan fresh ok with ⟨kept,_⟩ | ⟨t,side,k,f,m,before,_,after,_⟩
  · exact shapeRemains kept.cells
  · refine trans_of Remains (shapeRemains before.cells) (trans_of Remains ?_ (shapeRemains after.cells))
    exact sameRemains (setMountInodes t side m)

theorem releaseRemains {ino : Ref} {fh : Handle} (ok : sfsRelease ino fh e d = some ((),d')) :
    Remains d d' := by
  obtain ⟨t,before,after⟩ := releaseRan ok
  refine trans_of Remains (shapeRemains before.cells) (trans_of Remains ?_ (shapeRemains after.cells))
  exact sameRemains (setMountInodes t fh.side _)

theorem unlinkRemains {parent : Ref} {name : FileName} (ok : sfsUnlink parent name e d = some ((),d')) :
    Remains d d' := by
  rcases unlinkRan ok with ⟨_,kept⟩ | ⟨_,r,d1,d2,lookup,kept,rest⟩
  · exact shapeRemains kept.cells
  · refine trans_of Remains (lookupRemains lookup) (trans_of Remains ?_ (shapeRemains kept.cells))
    rcases rest with rfl | ⟨x,released⟩
    · exact refl_of Remains d2
    · rcases releaseUnlinkedRan released with rfl | ⟨a,c,_,_,rfl⟩
      · exact refl_of Remains d2
      · exact fun b mem => ⟨_,List.mem_map.mpr ⟨b,mem,rfl⟩,Arena.updateAddr⟩

end Requests

/- The kernel's side: the handles that it was given, and how many references to each entry
it holds. -/
structure Session where
  driver : State
  held : List Handle
  refs : Nat → Nat

inductive Move where
  | request (req : Req) (e : Env Call)
  -- Someone else changes what is on one of the file systems.
  | outside (side : Side) (v : Volume Call)

def Sends (s : Session) : Req → Prop
  | .lookup _ _ => True
  | .create _ _ _ => True
  | .openFile _ _ => True
  | .unlink _ _ => True
  | .release _ fh => fh ∈ s.held
  | .forget ino n => Returns s.refs [(ino,n)]
  | .forgetMulti forgets => Returns s.refs forgets
  | _ => False

instance (s : Session) (req : Req) : Decidable (Sends s req) := by
  unfold Sends
  rcases req <;> infer_instance

def holds (held : List Handle) (replies : List Reply) : Req → List Handle
  | .release _ fh => held.erase fh
  | .openFile _ _ => replies.filterMap handleOf ++ held
  | .create _ _ _ => replies.filterMap handleOf ++ held
  | _ => held

def refers (refs : Nat → Nat) (replies : List Reply) (req : Req) (a : Nat) : Nat :=
  match req with
  | .lookup _ _ => refs a + delivered a replies
  | .create _ _ _ => refs a + delivered a replies
  | req => refs a - forgotten a req

def step (s : Session) : Move → Option Session
  | .request req e =>
      if Sends s req then
        (handle req e {s.driver with replies := []}).map fun (_,t) =>
          ⟨t,holds s.held t.replies req,refers s.refs t.replies req⟩
      else none
  | .outside side v => some {s with driver := s.driver.setMount side {s.driver.mount side with vol := v}}

def Clean (e : Env Call) (d : State) (refs : Nat → Nat) : Req → Prop
  | .lookup parent name => ∀ dir ∈ d.inode parent, LookClean e d dir name
  | .create parent name flags => ∀ dir ∈ d.inode parent, CreateClean e d dir name flags
  | .unlink parent name => d.conf.cached = true ∨ ∀ dir ∈ d.inode parent, LookClean e d dir name ∧
      ∀ entry ∈ foundAt d.fs dir.fd name, (slotted d (entry.ino,d.fs.vol.dev)).Live
  | .forget ino n => ForgetsClean e d refs [(ino,n)]
  | .forgetMulti forgets => ForgetsClean e d refs forgets
  | _ => True

def Guarded (s : Session) : Move → Prop
  | .request req e => Faithful s.driver req ∧ Clean e {s.driver with replies := []} s.refs req
  | .outside _ _ => True

def Disposes (d d' : State) : Prop :=
  ∀ c ∈ d.inodes.cells, (∃ b ∈ d'.inodes.cells, b.addr = c.addr) ∨ Shut d' c

theorem remainsDisposes {d d' : State} (remains : Remains d d') : Disposes d d' :=
  fun c mem => Or.inl (remains c mem)

theorem shrinksDisposes {d d' : State} (shrinks : Shrinks d d') : Disposes d d' := by
  intro c mem
  refine (shrinks.cells c mem).imp (fun ⟨b,there,same⟩ => ⟨b,there,?_⟩) id
  exact congrArg Shape.addr same

theorem requestSettled {d t : State} {held : List Handle} {refs : Nat → Nat} {req : Req} {e : Env Call}
    (settled : Settled d held refs) (fresh : d.replies = []) (sends : Sends ⟨d,held,refs⟩ req)
    (clean : Clean e d refs req) (ok : handle req e d = some ((),t)) :
    Settled t (holds held t.replies req) (refers refs t.replies req) ∧ Disposes d t := by
  cases req with
  | lookup =>
    obtain ⟨r,d1,lookup,last⟩ := bindSome ok
    refine ⟨lookupRequest settled fresh clean ok,remainsDisposes ?_⟩
    refine trans_of Remains (lookupRemains lookup) ?_
    cases r with
    | error err => cases err <;> exact shapeRemains (replyKept _ e _ _ _ last).cells
    | ok x => exact shapeRemains (replyKept _ e _ _ _ last).cells
  | create => exact ⟨createRequest settled fresh clean ok,remainsDisposes (createRemains fresh ok)⟩
  | openFile => exact ⟨openRequest settled fresh ok,remainsDisposes (openRemains fresh ok)⟩
  | unlink => exact ⟨unlinkRequest settled clean ok,remainsDisposes (unlinkRemains ok)⟩
  | release => exact ⟨releaseRequest settled sends ok,remainsDisposes (releaseRemains ok)⟩
  | forget ino n =>
    obtain ⟨_,d1,forgot,last⟩ := bindSome ok
    have all : forgetAll [(ino,n)] e d = some ((),d1) := by
      rw [forgetAll,Prog.bindEq forgot]
      rfl
    obtain ⟨settled1,shrinks⟩ := forgetsSettled settled sends clean all
    have kept := replyKept _ e _ _ _ last
    exact ⟨keptSettled kept settled1,shrinksDisposes (trans_of Shrinks shrinks (keptShrinks kept))⟩
  | forgetMulti forgets =>
    obtain ⟨_,d1,forgot,last⟩ := bindSome ok
    obtain ⟨settled1,shrinks⟩ := forgetsSettled settled sends clean forgot
    have kept := replyKept _ e _ _ _ last
    exact ⟨keptSettled kept settled1,shrinksDisposes (trans_of Shrinks shrinks (keptShrinks kept))⟩
  | mknod | link | rmdir | rename | readdirplus | writeBuf | getattr | setattr | setxattr | removexattr =>
    cases sends

theorem stepSettled {s s' : Session} {m : Move} (settled : Settled s.driver s.held s.refs)
    (guard : Guarded s m) (ok : step s m = some s') :
    Settled s'.driver s'.held s'.refs ∧ Disposes s.driver s'.driver := by
  cases m with
  | request req e =>
    simp only [step] at ok
    split at ok <;> try contradiction
    rename_i sends
    obtain ⟨⟨_,t⟩,ran,rfl⟩ := Option.map_eq_some_iff.mp ok
    have kept : Kept s.driver {s.driver with replies := []} :=
      ⟨refl_of Tidy s.driver.fs,refl_of Tidy s.driver.id,rfl,⟨rfl,rfl⟩,rfl⟩
    exact requestSettled (d := {s.driver with replies := []}) (keptSettled kept settled) rfl sends guard.2 ran
  | outside side v =>
    cases Option.some.inj ok
    have tidy : Tidy (s.driver.mount side) {s.driver.mount side with vol := v} := sameTidy rfl rfl rfl
    have kept := mountKept s.driver side tidy
    exact ⟨keptSettled kept settled,remainsDisposes (shapeRemains kept.cells)⟩

theorem bootSettled (opts : Options) (fs id : Volume Call) : Settled (boot opts fs id) [] (fun _ => 0) := by
  refine ⟨?_,fun k below => absurd below (Nat.not_lt_zero k),⟨rfl,rfl⟩,fun c mem => (List.not_mem_nil mem).elim⟩
  have only : ∀ (v : Volume Call) n, ((bootMount v).file (.fd n)).isSome = true → n = 0 := by
    intro v n isSome
    have zero : 0 = n := by simpa [bootMount,Mount.install,Mount.file] using isSome
    exact zero.symm
  rintro ⟨side,n⟩ isOpen
  have zero : n = 0 := by cases side <;> exact only _ n isOpen
  cases side <;> simp [places,boot,inodeFds,slotFds,zero]

theorem forgottenEmpty {d : State} {refs : Nat → Nat} (settled : Settled d [] refs)
    (none : ∀ c ∈ d.inodes.cells, refs c.addr = 0) :
    (∀ x, IsOpen d x → x = (.fs,0) ∨ x = (.id,0)) ∧ d.sockets = 0 := by
  have dead : ∀ c ∈ d.inodes.cells, ¬ c.value.Live ∧ c.value.clientFd = Option.none := by
    intro c mem
    exact (settled.entries c mem).known.resolve_left (by simp [none c mem])
  have empty : tableFds d.inodes = 0 := by
    refine List.sum_eq_zero fun x isFds => ?_
    obtain ⟨c,mem,rfl⟩ := List.mem_map.mp isFds
    rw [deadFds (dead c mem).1]
    cases idFd : c.value.idFd with
    | fd n => exact absurd idFd ((settled.entries c mem).dead (dead c mem).1 n)
    | closed => rfl
    | enoent => rfl
  constructor
  · intro x isOpen
    have stored := settled.all x isOpen
    simp only [places,inodeFds,settled.start.1,settled.start.2,slotFds,handleFds,List.map_nil,List.sum_nil,
      add_zero,Multiset.mem_add,Multiset.mem_singleton] at stored
    exact stored.resolve_right (by simp [empty])
  · refine Nat.eq_zero_of_not_pos fun some => ?_
    obtain ⟨x,wire,used⟩ := settled.sockets 0 some
    obtain ⟨c,mem,rfl⟩ := List.mem_map.mp wire
    cases (dead c mem).2.symm.trans used

theorem nothingLeaks {opts : Options} {fs id : Volume Call} {moves : List Move} {s : Session}
    (meets : Meets step Guarded ⟨boot opts fs id,[],fun _ => 0⟩ moves)
    (ran : run step ⟨boot opts fs id,[],fun _ => 0⟩ moves = some s) :
    (∀ x, IsOpen s.driver x → x ∈ places s.driver s.held) ∧ Recorded s.driver ∧
    (∀ m s', Guarded s m → step s m = some s' → Disposes s.driver s'.driver) ∧
    (s.held = [] → (∀ c ∈ s.driver.inodes.cells, s.refs c.addr = 0) →
      (∀ x, IsOpen s.driver x → x = (.fs,0) ∨ x = (.id,0)) ∧ s.driver.sockets = 0) := by
  have settled := Lib.Run.invariant Guarded (fun s => Settled s.driver s.held s.refs)
    (fun inv guard ok => (stepSettled inv guard ok).1) (bootSettled opts fs id) meets ran
  refine ⟨settled.all,settled.sockets,fun m s' guard ok => (stepSettled settled guard ok).2,?_⟩
  intro held refs
  exact forgottenEmpty (held ▸ settled) refs

instance (e) : Decidable (Connects e) := by unfold Connects; infer_instance

instance (e d dir name) : Decidable (LookClean e d dir name) := by unfold LookClean; infer_instance

instance (e d dir name flags) : Decidable (CreateClean e d dir name flags) := by
  unfold CreateClean
  infer_instance

instance (d refs) : ∀ ino n, Decidable (ForgetClean d refs ino n)
  | .root,_ => isTrue trivial
  | .node a,_ => inferInstanceAs (Decidable (∀ c ∈ d.inodes.atAddr a, _ ∧ _))

instance decidableForgets (e : Env Call) : ∀ (d : State) (refs : Nat → Nat) (forgets : List (Ref × Nat)),
    Decidable (ForgetsClean e d refs forgets)
  | _,_,[] => isTrue trivial
  | _,_,(.root,_)::_ => isTrue trivial
  | d,refs,(.node a,n)::rest =>
      have : Decidable (match forgetOne (.node a) n e d with
          | some (_,t) => ForgetsClean e t (fun b => refs b - if b = a then n else 0) rest
          | none => True) := match forgetOne (.node a) n e d with
        | some (_,t) => decidableForgets e t _ rest
        | none => isTrue trivial
      inferInstanceAs (Decidable (ForgetClean d refs (.node a) n ∧ _))

instance (e d refs req) : Decidable (Clean e d refs req) := by
  unfold Clean
  rcases req <;> infer_instance

instance (s m) : Decidable (Guarded s m) := by
  unfold Guarded
  rcases m <;> infer_instance

def plainSource : Volume Call :=
  (makeAt (.mknod .fs) (.fd 0) nameB .reg [] (calm 20) (bootMount Choice.sourceTree)).2.vol

def start (cached : Bool) (source : Volume Call) : Session :=
  ⟨boot ⟨[47,105],[49],cached⟩ source (emptyVolume 7 ⟨[105],okI⟩),[],fun _ => 0⟩

def noCopy (ino : Ino) : Env Call :=
  {calm ino with fault := fun c => if c = .lookupOpenId then some .eio else none}

/- Without caching: a plain file of the source is found while the ID root cannot be read,
and is opened, released and forgotten; an ID file is made, opened once more, released,
unlinked and forgotten. -/
def cleanLife : List Move :=
  [.request (.lookup .root nameB) (noCopy 10),
   .request (.openFile (.node 0) forWriting) (calm 10),
   .request (.create .root nameId forWriting) (calm 10),
   .request (.release (.node 0) ⟨.fs,.fd 3⟩) (calm 11),
   .request (.forget (.node 0) 1) (calm 11),
   .request (.openFile (.node 1) forWriting) (calm 11),
   .request (.release (.node 1) ⟨.id,.fd 1⟩) (calm 11),
   .request (.release (.node 1) ⟨.id,.fd 4⟩) (calm 11),
   .request (.unlink .root nameId) (calm 11),
   .request (.forget (.node 1) 1) (calm 11)]

theorem cleanLifeCloses : ∃ s ∈ run step (start false plainSource) cleanLife,
    s.held = [] ∧ (∀ c ∈ s.driver.inodes.cells, s.refs c.addr = 0) ∧
    (∀ x, IsOpen s.driver x → x = (.fs,0) ∨ x = (.id,0)) ∧ s.driver.sockets = 0 := by
  have ends : ∃ s ∈ run step (start false plainSource) cleanLife,
      s.held = [] ∧ ∀ c ∈ s.driver.inodes.cells, s.refs c.addr = 0 := by decide +kernel
  obtain ⟨s,ran,held,refs⟩ := ends
  have meets : Meets step Guarded (start false plainSource) cleanLife := by decide +kernel
  obtain ⟨_,_,_,last⟩ := nothingLeaks meets ran
  obtain ⟨only,sockets⟩ := last held refs
  exact ⟨s,ran,held,refs,only,sockets⟩

def plainCreate : List Move :=
  [.request (.create .root nameB forWriting) (calm 10),
   .request (.release (.node 0) ⟨.fs,.fd 1⟩) (calm 11),
   .request (.forget (.node 0) 1) (calm 11)]

theorem copiesLeak : (∃ s ∈ run step (start true Choice.sourceTree) (plainCreate.take 1),
      IsOpen s.driver (.id,1) ∧ (.id,1) ∉ places s.driver s.held) ∧
    ∃ s ∈ run step (start true Choice.sourceTree) plainCreate, s.held = [] ∧ s.driver.inodes.cells = [] ∧
      IsOpen s.driver (.id,1) ∧ IsOpen s.driver (.id,2) := by
  decide +kernel

end F3.Driver.Leaks
