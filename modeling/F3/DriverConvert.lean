import F3.DriverFrames
import F3.Lib.PosixOk

/-! The conversion of an ID file: the loop of f3_make_id_fs copies the whole ID copy to the
start of the FS copy, in pieces of any size, and empties it. -/
namespace F3.Driver
open Lib (Bytes Arena Cell Prog Act)
open Lib.Prog (bindSome pureSome bindEq)
open Lib.Posix

theorem setContentContent (m : Mount Call) (ino : Ino) (content : Bytes) :
    ((m.setContent ino content).vol.nodes ino).content = content := by
  simp [Mount.setContent,Volume.setNode]

theorem setContentSame (m : Mount Call) (ino : Ino) :
    m.setContent ino (m.vol.nodes ino).content = m := by
  have same : (fun i => if i = ino then m.vol.nodes ino else m.vol.nodes i) = m.vol.nodes := by
    funext i
    split
    · rename_i here
      rw [here]
    · rfl
  simp only [Mount.setContent,Volume.setNode,same]

theorem setContentTwice (m : Mount Call) (ino : Ino) (a b : Bytes) :
    (m.setContent ino a).setContent ino b = m.setContent ino b := by
  simp only [Mount.setContent,Volume.setNode,if_true]
  congr 2
  funext i
  split <;> rfl

theorem sendfileSome {fsFd idFd : Slot} {fuel round offset : Nat} {e : Env Call} {d t : State} {f g}
    (fs : d.fs.file fsFd = some f) (id : d.id.file idFd = some g)
    (enough : (d.id.vol.nodes g.entry.ino).content.length < offset + fuel)
    (ok : sendfileLoop fsFd idFd fuel round offset e d = some (.ok (),t)) :
    t = {d with fs := d.fs.setContent f.entry.ino ((d.fs.vol.nodes f.entry.ino).content.pwrite offset
      ((d.id.vol.nodes g.entry.ino).content.drop offset))} := by
  induction fuel generalizing round offset d with
  | zero =>
    have beyond : (d.id.vol.nodes g.entry.ino).content.drop offset = [] := by
      rw [List.drop_eq_nil_iff]
      omega
    rw [beyond,Bytes.pwrite,if_pos rfl,setContentSame]
    exact (pureSome ok).2
  | succ fuel ih =>
    cases fault : e.fault (.convertCopy round) with
    | some err =>
      simp only [sendfileLoop,fault] at ok
      cases ok
    | none =>
      simp only [sendfileLoop,fault,fs,id] at ok
      split at ok
      · rename_i nothing
        have beyond : (d.id.vol.nodes g.entry.ino).content.drop offset = [] := by
          refine List.eq_nil_of_length_eq_zero ?_
          omega
        rw [beyond,Bytes.pwrite,if_pos rfl,setContentSame]
        exact (Prod.mk.inj (Option.some.inj ok)).2.symm
      · rename_i moved
        obtain ⟨n,isN⟩ : ∃ n, n = min (min (e.count (.convertCopy round)) 4095 + 1)
          ((d.id.vol.nodes g.entry.ino).content.drop offset).length := ⟨_,rfl⟩
        rw [← isN] at moved ok
        let rest := (d.id.vol.nodes g.entry.ino).content.drop offset
        have piece : (rest.take n).length = n := by
          rw [List.length_take]
          exact Nat.min_eq_left (isN ▸ Nat.min_le_right _ _)
        have filled : rest.take n ≠ [] := by
          intro empty
          rw [empty] at piece
          exact moved piece.symm
        let written := (d.fs.vol.nodes f.entry.ino).content.pwrite offset (rest.take n)
        have later := @ih (round + 1) (offset + n) {d with fs := d.fs.setContent f.entry.ino written} fs id
          (by simp only; omega) ok
        have joined := Bytes.pwriteAppend (d.fs.vol.nodes f.entry.ino).content offset (rest.drop n) filled
        rw [piece,List.take_append_drop,List.drop_drop] at joined
        refine later.trans ?_
        simp only [written,setContentContent,setContentTwice,joined]
        rfl

theorem sendfileOpen {fsFd idFd : Slot} {fuel round offset : Nat} {e : Env Call} {d t : State}
    (ok : sendfileLoop fsFd idFd (fuel + 1) round offset e d = some (.ok (),t)) :
    (∃ f, d.fs.file fsFd = some f) ∧ ∃ g, d.id.file idFd = some g := by
  simp only [sendfileLoop] at ok
  split at ok
  · cases ok
  · rename_i fs id
    exact ⟨⟨_,fs⟩,⟨_,id⟩⟩
  · cases ok

theorem fullFdOpens {c : Call} {fd : Slot} {access : Access} {e : Env Call} {m : Mount Call} {f}
    (known : m.file fd = some f) (reg : f.entry.kind = .reg) (quiet : e.fault c = none) :
    f3GetFullFd c fd access e m = (.ok (.fd m.next),m.install ⟨f.entry,f.dentry,access⟩) := by
  simp [f3GetFullFd,reopen,syscall,quiet,known,openEntry,reg]

theorem ftruncateRuns {c : Call} {slot : Slot} {size : Nat} {e : Env Call} {m : Mount Call} {f}
    (known : m.file slot = some f) (writes : f.access.writes = true) (reg : f.entry.kind = .reg)
    (quiet : e.fault c = none) : ftruncate c slot size e m =
      (.ok (),m.setContent f.entry.ino ((m.vol.nodes f.entry.ino).content.truncate size)) := by
  simp [ftruncate,syscall,quiet,writable,known,writes,reg,bind,Except.bind]

structure Converted (ino : Ref) (f g : File) (d t : State) : Prop where
  fs : Quiet (d.fs.setContent f.entry.ino
    ((d.fs.vol.nodes f.entry.ino).content.pwrite 0 (d.id.vol.nodes g.entry.ino).content)) t.fs
  inodes : t.inodes = (d.setInode ino fun i => {i with isId := false}).inodes
  replies : t.replies = d.replies

theorem emptySome {ino : Ref} {idFd : Slot} {copied : Except Errno Unit} {e : Env Call} {d t : State}
    (ok : emptyIdCopy ino idFd copied e d = some (none,t)) : copied = .ok () ∧
      t.fs = d.fs ∧ t.inodes = (d.setInode ino fun i => {i with isId := false}).inodes ∧
      t.replies = d.replies := by
  cases copied with
  | error err => cases (pureSome ok).1
  | ok =>
    obtain ⟨cut,u,called,rest⟩ := bindSome ok
    obtain ⟨_,v,set,last⟩ := bindSome rest
    obtain ⟨_,rfl⟩ := sysSome called
    cases Option.some.inj set
    rw [(pureSome last).2]
    cases ino <;> exact ⟨rfl,rfl,rfl,rfl⟩

theorem makeIdFsSome {ino : Ref} {e : Env Call} {d t : State} {i f g} (known : getInode ino e d = some (i,d))
    (fs : d.fs.file i.fd = some f) (id : d.id.file i.idFd = some g)
    (ok : f3MakeIdFs ino e d = some (none,t)) : Converted ino f g d t := by
  unfold f3MakeIdFs at ok
  rw [bindEq known] at ok
  obtain ⟨r,d1,openFs,ok⟩ := bindSome ok
  obtain ⟨r',d2,openId,ok⟩ := bindSome ok
  obtain ⟨_,_,got,ok⟩ := bindSome ok
  cases Option.some.inj got
  obtain ⟨copied,d3,loop,ok⟩ := bindSome ok
  obtain ⟨saverr,d4,emptied,ok⟩ := bindSome ok
  obtain ⟨_,d5,closeFs,ok⟩ := bindSome ok
  obtain ⟨_,d6,closeId,ok⟩ := bindSome ok
  obtain ⟨rfl,rfl⟩ := pureSome ok
  obtain ⟨rfl,sameFs,inodes,replies⟩ := emptySome emptied
  obtain ⟨⟨_,fsThere⟩,⟨_,idThere⟩⟩ := sendfileOpen loop
  -- Had one of the two opens failed, the loop would have found no file there.
  obtain ⟨isR,rfl⟩ := sysSome openFs
  obtain ⟨isR',rfl⟩ := sysSome openId
  rcases fullFdCases (.convertOpen .fs) i.fd .readWrite e d.fs with ⟨err,same⟩ | ⟨f',there,same⟩
  · obtain ⟨k,isFd⟩ := fdOfFile fsThere
    simp [isR,State.mount,same,slotOf] at isFd
  rcases fullFdCases (.convertOpen .id) i.idFd .readWrite e d.id with ⟨err,sameId⟩ | ⟨g',thereId,sameId⟩
  · obtain ⟨k,isFd⟩ := fdOfFile idThere
    simp [isR',State.mount,State.setMount,sameId,slotOf] at isFd
  cases fs.symm.trans there
  cases id.symm.trans thereId
  simp only [isR,isR',State.mount,State.setMount,same,sameId,slotOf] at loop closeFs closeId
  have isD3 := sendfileSome (fileInstall d.fs _) (fileInstall d.id _) (by
    simp only [idLength,fileInstall,Nat.zero_add]
    exact Nat.lt_succ_self _) loop
  obtain ⟨_,rfl⟩ := sysSome closeFs
  obtain ⟨_,rfl⟩ := sysSome closeId
  refine ⟨?_,?_,?_⟩
  · show Quiet _ (close (.fd d.fs.next) e d4.fs).2
    rw [sameFs,isD3]
    exact trans_of Quiet (installQuiet (d.fs.setContent f.entry.ino _) _) (closeQuiet _ _ _)
  · show d4.inodes = _
    rw [inodes,isD3]
    cases ino <;> rfl
  · show d4.replies = _
    rw [replies,isD3]

theorem sendfileEnds (fsFd idFd : Slot) (fuel round offset : Nat) (e : Env Call) (d : State) :
    ∃ copied t, sendfileLoop fsFd idFd fuel round offset e d = some (copied,t) := by
  induction fuel generalizing round offset d with
  | zero => exact ⟨_,_,rfl⟩
  | succ fuel ih =>
    simp only [sendfileLoop]
    split
    · exact ⟨_,_,rfl⟩
    · split
      · exact ⟨_,_,rfl⟩
      · exact ih _ _ _
    · exact ⟨_,_,rfl⟩

structure Parts (ino : Ref) (e : Env Call) (i : Inode) (d : State) (saverr : Option Errno) (t : State) where
  fsFd : Except Errno Slot
  idFd : Except Errno Slot
  fs : Mount Call
  id : Mount Call
  openFs : f3GetFullFd (.convertOpen .fs) i.fd .readWrite e d.fs = (fsFd,fs)
  openId : f3GetFullFd (.convertOpen .id) i.idFd .readWrite e d.id = (idFd,id)
  copied : Except Errno Unit
  d3 : State
  loop : sendfileLoop (slotOf fsFd) (slotOf idFd) (idLength {d with fs := fs, id := id} (slotOf idFd) + 1) 0 0 e
    {d with fs := fs, id := id} = some (copied,d3)
  d4 : State
  emptied : emptyIdCopy ino (slotOf idFd) copied e d3 = some (saverr,d4)
  shut : t = {d4 with fs := (close (slotOf fsFd) e d4.fs).2, id := (close (slotOf idFd) e d4.id).2}

theorem makeIdFsParts {ino : Ref} {e : Env Call} {d : State} {i} (known : getInode ino e d = some (i,d)) :
    ∃ saverr t, f3MakeIdFs ino e d = some (saverr,t) ∧ Nonempty (Parts ino e i d saverr t) := by
  obtain ⟨fsFd,fs,openFs⟩ : ∃ r m, f3GetFullFd (.convertOpen .fs) i.fd .readWrite e d.fs = (r,m) := ⟨_,_,rfl⟩
  obtain ⟨idFd,id,openId⟩ : ∃ r m, f3GetFullFd (.convertOpen .id) i.idFd .readWrite e d.id = (r,m) := ⟨_,_,rfl⟩
  let d2 : State := {d with fs := fs, id := id}
  obtain ⟨copied,d3,loop⟩ := sendfileEnds (slotOf fsFd) (slotOf idFd) (idLength d2 (slotOf idFd) + 1) 0 0 e d2
  have emptied : ∃ saverr d4, emptyIdCopy ino (slotOf idFd) copied e d3 = some (saverr,d4) := by
    cases copied <;> exact ⟨_,_,rfl⟩
  obtain ⟨saverr,d4,emptied⟩ := emptied
  have first : sys .fs (f3GetFullFd (.convertOpen .fs) i.fd .readWrite) e d = some (fsFd,{d with fs := fs}) := by
    simp [sys,Prog.zoom,State.mount,State.setMount,openFs]
  have second : sys .id (f3GetFullFd (.convertOpen .id) i.idFd .readWrite) e {d with fs := fs} =
      some (idFd,d2) := by
    simp [sys,Prog.zoom,State.mount,State.setMount,openId,d2]
  refine ⟨saverr,_,?_,⟨fsFd,idFd,fs,id,openFs,openId,copied,d3,loop,d4,emptied,rfl⟩⟩
  unfold f3MakeIdFs
  rw [bindEq known,bindEq first,bindEq second,
    bindEq (show Prog.get e d2 = some (d2,d2) from rfl),bindEq loop,bindEq emptied]
  rfl

theorem emptyCuts (ino : Ref) {idFd : Slot} {e : Env Call} {d : State} {g} (id : d.id.file idFd = some g)
    (writes : g.access.writes = true) (reg : g.entry.kind = .reg) (cuts : e.fault .convertTruncate = none) :
    emptyIdCopy ino idFd (.ok ()) e d = some (none,{d with
      id := d.id.setContent g.entry.ino []}.setInode ino fun i => {i with isId := false}) := by
  have cut := @ftruncateRuns .convertTruncate idFd 0 e d.id g id writes reg cuts
  have none_ : (d.id.vol.nodes g.entry.ino).content.truncate 0 = [] :=
    List.eq_nil_of_length_eq_zero (Bytes.truncateSize _ 0)
  rw [none_] at cut
  simp only [emptyIdCopy,bind,sys,Prog.zoom,State.mount,State.setMount,cut,setInode,Prog.modify]
  rfl

theorem emptyFails (ino : Ref) (idFd : Except Errno Slot) {e : Env Call} (d : State) {err}
    (fails : e.fault .convertTruncate = some err) : emptyIdCopy ino (slotOf idFd) (.ok ()) e d =
      some (some err,d.setInode ino fun i => {i with isId := false}) := by
  simp only [emptyIdCopy,bind,sys,Prog.zoom,State.mount,State.setMount,ftruncate,syscall,fails,setInode,
    Prog.modify]
  rfl

def ConvertEnds (ino : Ref) (i : Inode) (f g : File) (d t : State) : Option Errno → Prop
  | none => (t.fs.vol.nodes f.entry.ino).content = (d.id.vol.nodes g.entry.ino).content ∧
      (t.id.vol.nodes g.entry.ino).content = [] ∧ t.inode ino = some {i with isId := false}
  | some _ => (t.id.vol.nodes g.entry.ino).content = (d.id.vol.nodes g.entry.ino).content ∧
      t.inode ino = some i

@[simp] theorem setInodeFs (d : State) (ino : Ref) (f : Inode → Inode) : (d.setInode ino f).fs = d.fs := by
  cases ino <;> rfl

@[simp] theorem setInodeId (d : State) (ino : Ref) (f : Inode → Inode) : (d.setInode ino f).id = d.id := by
  cases ino <;> rfl

theorem inodeSet {d : State} {ino : Ref} {i} (f : Inode → Inode) (known : d.inode ino = some i) :
    (d.setInode ino f).inode ino = some (f i) := by
  cases ino with
  | root =>
    cases Option.some.inj known
    rfl
  | node a =>
    obtain ⟨c,here,rfl⟩ := Option.map_eq_some_iff.mp known
    simp only [State.setInode,State.inode,Arena.atAddrModify here,Option.map_some]

theorem fullFdQuiet {c : Call} {fd : Slot} {access : Access} {e : Env Call} {m m' : Mount Call} {r}
    (ok : f3GetFullFd c fd access e m = (r,m')) : Quiet m m' := by
  rcases fullFdCases c fd access e m with ⟨err,same⟩ | ⟨f,_,same⟩
  · cases same.symm.trans ok
    exact refl_of Quiet m
  · cases same.symm.trans ok
    exact installQuiet m _

theorem fullFdFile {c : Call} {fd : Slot} {access : Access} {e : Env Call} {m m' : Mount Call} {r f g}
    (ok : f3GetFullFd c fd access e m = (r,m')) (known : m.file fd = some f)
    (there : m'.file (slotOf r) = some g) : g = ⟨f.entry,f.dentry,access⟩ := by
  rcases fullFdCases c fd access e m with ⟨err,same⟩ | ⟨f',known',same⟩
  · cases same.symm.trans ok
    obtain ⟨k,isFd⟩ := fdOfFile there
    cases isFd
  · cases same.symm.trans ok
    cases known.symm.trans known'
    exact Option.some.inj (there.symm.trans (fileInstall m _))

-- What `k` calls of sendfile may move, from the one of `round` on.
def movable (e : Env Call) (round : Nat) : Nat → Nat
  | 0 => 0
  | k+1 => min (e.count (.convertCopy round)) 4095 + 1 + movable e (round + 1) k

theorem sendfileDone {fsFd idFd : Slot} {fuel round offset : Nat} {e : Env Call} {d t : State} {f g copied}
    (fs : d.fs.file fsFd = some f) (id : d.id.file idFd = some g)
    (within : offset ≤ (d.id.vol.nodes g.entry.ino).content.length)
    (enough : (d.id.vol.nodes g.entry.ino).content.length < offset + fuel)
    (ok : sendfileLoop fsFd idFd fuel round offset e d = some (copied,t)) :
    copied = .ok () ↔ ∀ k, (∀ j < k, offset + movable e round j < (d.id.vol.nodes g.entry.ino).content.length) →
      e.fault (.convertCopy (round + k)) = none := by
  induction fuel generalizing round offset d with
  | zero => omega
  | succ fuel ih =>
    cases fault : e.fault (.convertCopy round) with
    | some err =>
      simp only [sendfileLoop,fault] at ok
      cases Option.some.inj ok
      refine iff_of_false (by simp) fun none => ?_
      cases fault.symm.trans (none 0 (by simp))
    | none =>
      simp only [sendfileLoop,fault,fs,id] at ok
      split at ok
      · rename_i nothing
        rw [List.length_drop] at nothing
        cases Option.some.inj ok
        refine iff_of_true rfl fun k short => ?_
        cases k with
        | zero => exact fault
        | succ k =>
          have less : offset + 0 < _ := short 0 (Nat.succ_pos k)
          omega
      · rename_i moved
        obtain ⟨n,isN⟩ : ∃ n, n = min (min (e.count (.convertCopy round)) 4095 + 1)
          ((d.id.vol.nodes g.entry.ino).content.drop offset).length := ⟨_,rfl⟩
        rw [← isN] at moved ok
        rw [List.length_drop] at isN
        let written := (d.fs.vol.nodes f.entry.ino).content.pwrite offset
          (((d.id.vol.nodes g.entry.ino).content.drop offset).take n)
        have later := @ih (round + 1) (offset + n) {d with fs := d.fs.setContent f.entry.ino written} fs id
          (by simp only; omega) (by simp only; omega) ok
        refine later.trans ⟨fun none k short => ?_,fun none k short => ?_⟩
        · cases k with
          | zero => exact fault
          | succ k =>
            rw [Nat.add_comm k 1,← Nat.add_assoc]
            refine none k fun j less => ?_
            have one := short (j + 1) (Nat.succ_lt_succ less)
            simp only [movable] at one ⊢
            omega
        · rw [Nat.add_assoc,Nat.add_comm 1 k]
          refine none (k + 1) fun j less => ?_
          cases j with
          | zero =>
            simp only [movable]
            omega
          | succ j =>
            have one := short j (Nat.lt_of_succ_lt_succ less)
            simp only [movable] at one ⊢
            omega

-- An open fails, or a call of sendfile that the loop comes to.
def Stops (e : Env Call) (bytes : Nat) : Prop := (∃ side, e.fault (.convertOpen side) ≠ none) ∨
  ∃ k, e.fault (.convertCopy k) ≠ none ∧ ∀ j < k, movable e 0 j < bytes

def Convertible (e : Env Call) (i : Inode) (fsBytes idBytes : Nat) : Prop := Stops e idBytes ∨
  e.fault .convertTruncate = none ∧ fsBytes ≤ idBytes ∨ e.fault .convertTruncate ≠ none ∧ i.isId = false

section Exactly
variable {ino : Ref} {e : Env Call} {d t : State} {i : Inode} {f g : File} {saverr : Option Errno}

theorem fullFdFails {c : Call} {fd : Slot} {access : Access} {m m' : Mount Call} {r}
    (ok : f3GetFullFd c fd access e m = (r,m')) (failed : e.fault c ≠ none) : slotOf r = .closed := by
  obtain ⟨err,fault⟩ := Option.ne_none_iff_exists'.mp failed
  simp only [f3GetFullFd,reopen,syscall,fault] at ok
  cases ok
  rfl

theorem partsCopied (parts : Parts ino e i d saverr t) (fs : d.fs.file i.fd = some f)
    (id : d.id.file i.idFd = some g) (reg : f.entry.kind = .reg) (regId : g.entry.kind = .reg) :
    parts.copied = .ok () ↔ ¬ Stops e (d.id.vol.nodes g.entry.ino).content.length := by
  obtain ⟨fsFd,idFd,m,n,openFs,openId,copied,d3,loop,_,_,_⟩ := parts
  by_cases opens : ∃ side, e.fault (.convertOpen side) ≠ none
  · refine iff_of_false (fun done => ?_) fun goesOn => goesOn (.inl opens)
    cases done
    obtain ⟨⟨f',fsThere⟩,⟨g',idThere⟩⟩ := sendfileOpen loop
    obtain ⟨side,failed⟩ := opens
    cases side with
    | fs =>
      rw [fullFdFails openFs failed] at fsThere
      cases fsThere
    | id =>
      rw [fullFdFails openId failed] at idThere
      cases idThere
  · have quiet : ∀ side, e.fault (.convertOpen side) = none := by simpa using opens
    cases openFs.symm.trans (fullFdOpens fs reg (quiet .fs))
    cases openId.symm.trans (fullFdOpens id regId (quiet .id))
    have done := sendfileDone (fileInstall d.fs _) (fileInstall d.id _) (Nat.zero_le _) (by
      simp only [idLength,slotOf,fileInstall,Nat.zero_add]
      exact Nat.lt_succ_self _) loop
    refine done.trans ?_
    simp only [Nat.zero_add,Stops,opens,false_or,not_exists,not_and]
    exact ⟨fun none k failed short => failed (none k short),fun none k short => not_not.mp fun failed =>
      none k failed short⟩

end Exactly

theorem convertKeepsData {ino : Ref} {e : Env Call} {d : State} {i f g}
    (known : getInode ino e d = some (i,d)) (fs : d.fs.file i.fd = some f) (reg : f.entry.kind = .reg)
    (id : d.id.file i.idFd = some g) (regId : g.entry.kind = .reg) :
    ∃ saverr t, f3MakeIdFs ino e d = some (saverr,t) ∧ (ConvertEnds ino i f g d t saverr ↔
      Convertible e i (d.fs.vol.nodes f.entry.ino).content.length (d.id.vol.nodes g.entry.ino).content.length) := by
  obtain ⟨saverr,t,ran,⟨parts⟩⟩ := makeIdFsParts known
  refine ⟨saverr,t,ran,?_⟩
  have stops := partsCopied parts fs id reg regId
  obtain ⟨fsFd,idFd,m,n,openFs,openId,copied,d3,loop,d4,emptied,rfl⟩ := parts
  have quietFs := fullFdQuiet openFs
  have quietId := fullFdQuiet openId
  have there := (getInodeSome known).2.1
  cases copied with
  | error err =>
    refine iff_of_true ?_ (.inl (not_not.mp (stops.not.mp (by simp))))
    obtain ⟨_,rfl,_⟩ := sendfileContent loop
    obtain ⟨rfl,rfl⟩ := pureSome emptied
    refine ⟨?_,there⟩
    show ((close (slotOf idFd) e n).2.vol.nodes _).content = _
    rw [(closeQuiet (slotOf idFd) e n).nodes,quietId.nodes]
  | ok =>
    have goesOn := stops.mp rfl
    obtain ⟨⟨f',fsThere⟩,⟨g',idThere⟩⟩ := sendfileOpen loop
    cases fullFdFile openFs fs fsThere
    cases fullFdFile openId id idThere
    have isD3 := sendfileSome fsThere idThere (by
      simp only [idLength,idThere,Nat.zero_add]
      exact Nat.lt_succ_self _) loop
    have idThere : d3.id.file (slotOf idFd) = some ⟨g.entry,g.dentry,.readWrite⟩ := by
      rw [isD3]
      exact idThere
    have here : d3.inode ino = some i := by
      rw [isD3]
      exact there
    cases cuts : e.fault .convertTruncate with
    | none =>
      have cut := emptyCuts ino idThere rfl regId cuts
      obtain ⟨rfl,rfl⟩ := Prod.mk.inj (Option.some.inj (emptied.symm.trans cut))
      have data : ((close (slotOf fsFd) e ({d3 with id := d3.id.setContent g.entry.ino []}.setInode ino
          fun i => {i with isId := false}).fs).2.vol.nodes f.entry.ino).content =
          (d.fs.vol.nodes f.entry.ino).content.pwrite 0 (d.id.vol.nodes g.entry.ino).content := by
        rw [(closeQuiet (slotOf fsFd) e _).nodes,setInodeFs,isD3,setContentContent,quietFs.nodes,quietId.nodes]
        rfl
      have empty : ((close (slotOf idFd) e ({d3 with id := d3.id.setContent g.entry.ino []}.setInode ino
          fun i => {i with isId := false}).id).2.vol.nodes g.entry.ino).content = [] := by
        rw [(closeQuiet (slotOf idFd) e _).nodes,setInodeId,setContentContent]
      simp only [Convertible,goesOn,cuts,ne_eq,not_true_eq_false,false_and,or_false,false_or,true_and]
      rw [← Bytes.pwriteCovered,← data]
      exact ⟨fun ends => ends.1,fun whole => ⟨whole,empty,inodeSet (fun i => {i with isId := false}) here⟩⟩
    | some err =>
      have failed := emptyFails ino idFd d3 cuts
      obtain ⟨rfl,rfl⟩ := Prod.mk.inj (Option.some.inj (emptied.symm.trans failed))
      have kept : ((close (slotOf idFd) e (d3.setInode ino fun i => {i with isId := false}).id).2.vol.nodes
          g.entry.ino).content = (d.id.vol.nodes g.entry.ino).content := by
        rw [(closeQuiet (slotOf idFd) e _).nodes,setInodeId,isD3,quietId.nodes]
      have set : (d3.setInode ino fun i => {i with isId := false}).inode ino = some {i with isId := false} :=
        inodeSet (fun i => {i with isId := false}) here
      simp only [Convertible,goesOn,cuts,ne_eq,reduceCtorEq,not_false_eq_true,false_and,true_and,false_or]
      refine ⟨fun ends => ?_,fun plain => ⟨kept,set.trans ?_⟩⟩
      · exact (congrArg Inode.isId (Option.some.inj (set.symm.trans ends.2))).symm
      · rw [← plain]

instance (ino i f g d t saverr) : Decidable (ConvertEnds ino i f g d t saverr) := by
  unfold ConvertEnds
  rcases saverr <;> infer_instance

def written : Option State := Lib.Run.run step (mounted true)
  [.request (.create .root nameId forWriting) (calm 10),
   .request (.writeBuf (.node 0) ⟨.id,.fd 1⟩ 0 [1,2,3]) (calm 10)]

theorem writtenConverts : ∃ d i f g saverr t, written = some d ∧ d.inode (.node 0) = some i ∧
    d.fs.file i.fd = some f ∧ d.id.file i.idFd = some g ∧
    (d.id.vol.nodes g.entry.ino).content = [1,2,3] ∧
    f3MakeIdFs (.node 0) {calm 20 with count := fun _ => 0} d = some (saverr,t) ∧
    ConvertEnds (.node 0) i f g d t saverr := by
  obtain ⟨d,i,f,g,made,known,fs,id,content,filled,reg,regId,covered⟩ :
      ∃ d i f g, written = some d ∧ d.inode (.node 0) = some i ∧ d.fs.file i.fd = some f ∧
        d.id.file i.idFd = some g ∧ (d.id.vol.nodes g.entry.ino).content = [1,2,3] ∧ i.fd ≠ .closed ∧
        f.entry.kind = .reg ∧ g.entry.kind = .reg ∧ (d.fs.vol.nodes f.entry.ino).content.length ≤
          (d.id.vol.nodes g.entry.ino).content.length := by
    refine ⟨_,_,_,_,rfl,rfl,rfl,rfl,?_⟩
    decide +kernel
  obtain ⟨saverr,t,ran,ends⟩ := convertKeepsData (getInodeEq {calm 20 with count := fun _ => 0} known
    fun _ => filled) fs reg id regId
  exact ⟨d,i,f,g,saverr,t,made,known,fs,id,content,ran,ends.mpr (.inr (.inl ⟨rfl,covered⟩))⟩

-- A file of three bytes that was renamed to a.id, opened as an ID file and written to.
def renamed : Option State := Lib.Run.run step (mounted true)
  [.request (.create .root nameA forWriting) (calm 10),
   .request (.writeBuf (.node 0) ⟨.fs,.fd 1⟩ 0 [1,2,3]) (calm 10),
   .request (.rename .root nameA .root nameId false) (calm 10),
   .request (.forget (.node 0) 1) (calm 10),
   .request (.lookup .root nameId) (calm 20),
   .request (.openFile (.node 1) forWriting) (calm 20),
   .request (.writeBuf (.node 1) ⟨.id,.fd 4⟩ 0 [7]) (calm 20)]

def cutFails : Env Call := {calm 20 with fault := fun c => if c = .convertTruncate then some .eio else none}

def converting (start : Option State) (ino : Ref) (e : Env Call) :
    Option (State × Inode × File × File × Option Errno × State) := do
  let d ← start
  let i ← d.inode ino
  let f ← d.fs.file i.fd
  let g ← d.id.file i.idFd
  let (saverr,t) ← f3MakeIdFs ino e d
  some (d,i,f,g,saverr,t)

theorem convertMixes :
    (∃ d i f g t, converting renamed (.node 1) (calm 20) = some (d,i,f,g,none,t) ∧
      (d.id.vol.nodes g.entry.ino).content = [7] ∧ (t.fs.vol.nodes f.entry.ino).content = [7,2,3] ∧
      ¬ ConvertEnds (.node 1) i f g d t none) ∧
    ∃ d i f g t, converting written (.node 0) cutFails = some (d,i,f,g,some .eio,t) ∧
      i.isId = true ∧ t.inode (.node 0) = some {i with isId := false} ∧
      ¬ ConvertEnds (.node 0) i f g d t (some .eio) := by
  have tail : (converting renamed (.node 1) (calm 20)).any (fun (d,i,f,g,saverr,t) => saverr = none ∧
      (d.id.vol.nodes g.entry.ino).content = [7] ∧ (t.fs.vol.nodes f.entry.ino).content = [7,2,3] ∧
      ¬ ConvertEnds (.node 1) i f g d t none) = true := by
    decide +kernel
  have error : (converting written (.node 0) cutFails).any (fun (d,i,f,g,saverr,t) => saverr = some .eio ∧
      i.isId = true ∧ t.inode (.node 0) = some {i with isId := false} ∧
      ¬ ConvertEnds (.node 0) i f g d t (some .eio)) = true := by
    decide +kernel
  constructor
  · obtain ⟨⟨d,i,f,g,saverr,t⟩,ran,checked⟩ := (Option.any_eq_true _ _).mp tail
    obtain ⟨rfl,rest⟩ := of_decide_eq_true checked
    exact ⟨d,i,f,g,t,ran,rest⟩
  · obtain ⟨⟨d,i,f,g,saverr,t⟩,ran,checked⟩ := (Option.any_eq_true _ _).mp error
    obtain ⟨rfl,rest⟩ := of_decide_eq_true checked
    exact ⟨d,i,f,g,t,ran,rest⟩

end F3.Driver
