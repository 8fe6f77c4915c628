import F3.DriverFrames
import F3.Lib.PosixOk

/-! Between the new entries and the lookup: create and mkdir mark what they made, and leave
names, the inode table and the descriptors that were open before alone. -/
namespace F3.Driver
open Lib (Bytes Arena Cell Prog Act)
open Lib.Posix

/- What the driver does between the two new entries and the lookup: marks, which leave
names and open files alone. `b` and `c` bound the descriptors that were open before. -/
structure Around (b c : Fd) (d d' : State) : Prop where
  tree : d'.fs.vol.tree = d.fs.vol.tree
  dev : d'.fs.vol.dev = d.fs.vol.dev
  idTree : d'.id.vol.tree = d.id.vol.tree
  idDev : d'.id.vol.dev = d.id.vol.dev
  inodes : d'.inodes = d.inodes
  root : d'.root = d.root
  conf : d'.conf = d.conf
  held : b ≤ d.fs.next → Held b d.fs d'.fs
  heldId : c ≤ d.id.next → Held c d.id d'.id

instance (b c : Fd) : IsPreorder State (Around b c) where
  refl d := ⟨rfl,rfl,rfl,rfl,rfl,rfl,rfl,fun _ => refl_of (Held b) d.fs,
    fun _ => refl_of (Held c) d.id⟩
  trans _ _ _ one two := ⟨two.tree.trans one.tree,two.dev.trans one.dev,two.idTree.trans one.idTree,
    two.idDev.trans one.idDev,two.inodes.trans one.inodes,two.root.trans one.root,two.conf.trans one.conf,
    fun below => trans_of (Held b) (one.held below) (two.held (below.trans (one.held below).next)),
    fun below => trans_of (Held c) (one.heldId below)
      (two.heldId (below.trans (one.heldId below).next))⟩

structure Calls (bound : Fd) (m m' : Mount Call) : Prop where
  tree : m'.vol.tree = m.vol.tree
  dev : m'.vol.dev = m.vol.dev
  held : bound ≤ m.next → Held bound m m'

def markNew (parent : Ref) (inodeP : Inode) (name : FileName) : Handler (Except Errno Unit) := do
  let isNew ← f3IsNewId .handler parent name
  Prog.onlyIf (isNew = true) (do
    markDir .fs inodeP name
    markDir .id inodeP name)
  pure (.ok ())

section Around
variable {b c : Fd} {d : State}

theorem aroundMount (side : Side) {m : Mount Call} (calls : ∀ bound, Calls bound (d.mount side) m) :
    Around b c d (d.setMount side m) := by
  cases side with
  | fs => exact ⟨(calls b).tree,(calls b).dev,rfl,rfl,rfl,rfl,rfl,(calls b).held,
      fun _ => refl_of (Held c) d.id⟩
  | id => exact ⟨rfl,rfl,(calls c).tree,(calls c).dev,rfl,rfl,rfl,fun _ => refl_of (Held b) d.fs,
      (calls c).held⟩

theorem markCalls (side : Side) (address : Bytes) (fd : Slot) (rootDirLen : Nat) (e : Env Call)
    (m : Mount Call) (bound : Fd) : Calls bound m (f3MarkAsId side address fd rootDirLen e m).2 := by
  have marked := markedTo side address fd rootDirLen e m
  refine ⟨marked.place.1,?_,fun below => heldLess below (f3MarkAsIdHeld side address fd rootDirLen e m)⟩
  cases marked with
  | none same => exact same.dev
  | id _ same => exact same.dev
  | servers _ same => exact same.dev
  | path _ _ _ _ same => exact same.dev

theorem isIdCalls (caller : Caller) (fd : Slot) (e : Env Call) (m : Mount Call) (bound : Fd) :
    Calls bound m (f3IsId caller fd e m).2 :=
  ⟨(f3IsIdQuiet caller fd e m).tree,(f3IsIdQuiet caller fd e m).dev,
    fun below => heldLess below (f3IsIdHeld caller fd e m)⟩

theorem markDirAround (side : Side) (dir : Inode) (name : FileName) :
    Prog.Keeps (Around b c) (markDir side dir name) := by
  intro e d a d' ok
  let m := d.mount side
  let opened := openPath (.mknodOpen side) (dir.copy side) name e m
  let marked := f3MarkAsId side d.conf.address (slotOf opened.1) (d.conf.rootDir side).length e opened.2
  let closed := close (slotOf opened.1) e marked.2
  have same : d' = d.setMount side closed.2 := by
    cases Option.some.inj ok
    cases side <;> rfl
  rw [same]
  refine aroundMount side fun bound => ?_
  have mark := markCalls side d.conf.address (slotOf opened.1) (d.conf.rootDir side).length e opened.2
  have quiet := openPathQuiet (.mknodOpen side) (dir.copy side) name e m
  have shut := closeQuiet (slotOf opened.1) e marked.2
  refine ⟨shut.tree.trans ((mark bound).tree.trans quiet.tree),
    shut.dev.trans ((mark bound).dev.trans quiet.dev),fun below => ?_⟩
  have first := heldLess below (openPathHeld (.mknodOpen side) (dir.copy side) name e m)
  have second := (mark bound).held (below.trans first.next)
  have third : ∀ n : Mount Call, Held bound n (close (slotOf opened.1) e n).2 := by
    intro n
    rcases openPathCases (.mknodOpen side) (dir.copy side) name e m with ⟨err,failed⟩ | ⟨_,_,_,_,_,done⟩
    · rw [show slotOf opened.1 = .closed by simp [opened,failed,slotOf]]
      exact refl_of (Held bound) n
    · rw [show slotOf opened.1 = .fd m.next by simp [opened,done,slotOf]]
      exact closeHeld below e n
  exact trans_of (Held bound) first (trans_of (Held bound) second (third _))

theorem isNewAround (caller : Caller) (parent : Ref) (name : FileName) :
    Prog.Keeps (Around b c) (f3IsNewId caller parent name) := by
  intro e d a d' ok
  obtain ⟨dir,_,_,rfl⟩ := f3IsNewIdSome ok
  exact aroundMount .fs (isIdCalls caller dir.fd e d.fs)

theorem chooseAround {parent : Ref} {name : FileName} {k : Fd} {idFd : Slot} (new : b ≤ k) :
    Prog.Keeps (Around b c) (chooseCopy parent name (.fd k) idFd) := by
  intro e d fh d' ok
  obtain ⟨yes,d1,asked,rest⟩ := chooseSome ok
  have first : Around b c d d1 := isNewAround .handler parent name e d yes d1 asked
  rcases rest with ⟨_,rfl⟩ | ⟨_,both⟩
  · exact first
  · refine trans_of (Around b c) first ?_
    have mark := markCalls .fs d1.conf.address (.fd k) d1.conf.source.length e d1.fs b
    have markId := markCalls .id d1.conf.address idFd d1.conf.idroot.length e d1.id c
    have shut := closeQuiet (.fd k) e (f3MarkAsId .fs d1.conf.address (.fd k) d1.conf.source.length e d1.fs).2
    refine ⟨?_,?_,?_,?_,both.inodes,both.root,both.conf,fun below => ?_,fun below => ?_⟩
    · rw [both.fs]
      exact shut.tree.trans mark.tree
    · rw [both.fs]
      exact shut.dev.trans mark.dev
    · rw [both.id]
      exact markId.tree
    · rw [both.id]
      exact markId.dev
    · rw [both.fs]
      exact trans_of (Held b) (mark.held below) (closeHeld new e _)
    · rw [both.id]
      exact markId.held below

theorem markNewAround (parent : Ref) (inodeP : Inode) (name : FileName) :
    Prog.Keeps (Around b c) (markNew parent inodeP name) :=
  Prog.keepsBind (isNewAround .handler parent name) fun _ =>
    Prog.keepsBind (Prog.keepsOnlyIf (Prog.keepsBind (markDirAround .fs inodeP name) fun _ =>
      markDirAround .id inodeP name)) fun _ => Prog.keepsPure _

end Around

theorem mknodIdSome {parent : Ref} {dir : Inode} {name : FileName} {kind : Kind} {link : Bytes}
    {e : Env Call} {d : State} {r t} (two : kind = .dir ∨ kind = .lnk)
    (ran : mknodId parent dir name kind link e d = some (r,t)) : ∃ made n,
      makeAt (.mknod .id) dir.idFd name kind (if kind = .dir then [] else link) e d.id = (made,n) ∧
      r = made ∧ ((∃ err, made = .error err) ∧ t = d ∨ made = .ok () ∧
        (kind = .dir ∧ markNew parent dir name e {d with id := n} = some (r,t) ∨
          kind = .lnk ∧ t = {d with id := n})) := by
  have fails : ∀ content, (∃ err, makeAt (.mknod .id) dir.idFd name kind content e d.id =
      (.error err,d.id)) ∨ ∃ n, makeAt (.mknod .id) dir.idFd name kind content e d.id = (.ok (),n) := by
    intro content
    rcases makeAtCases (.mknod .id) dir.idFd name kind content e d.id with failed | ⟨_,_,_,_,_,done⟩
    · exact .inl failed
    · exact .inr ⟨_,done⟩
  rcases two with rfl | rfl
  · rw [if_pos rfl]
    obtain ⟨first,u,call,rest⟩ := Prog.bindSome ran
    obtain ⟨rfl,rfl⟩ := sysSome call
    rcases fails [] with ⟨err,failed⟩ | ⟨n,done⟩
    · simp only [State.mount,State.setMount,failed] at rest
      obtain ⟨rfl,rfl⟩ := Prog.pureSome rest
      exact ⟨_,_,failed,rfl,.inl ⟨⟨err,rfl⟩,rfl⟩⟩
    · simp only [State.mount,State.setMount,done] at rest
      refine ⟨_,n,done,?_,.inr ⟨rfl,.inl ⟨rfl,rest⟩⟩⟩
      obtain ⟨_,_,_,rest⟩ := Prog.bindSome rest
      obtain ⟨_,_,_,rest⟩ := Prog.bindSome rest
      exact (Prog.pureSome rest).1
  · rw [if_neg (by decide)]
    obtain ⟨rfl,rfl⟩ := sysSome ran
    simp only [State.mount,State.setMount]
    rcases fails link with ⟨err,failed⟩ | ⟨n,done⟩
    · rw [failed]
      exact ⟨_,_,rfl,rfl,.inl ⟨⟨err,rfl⟩,rfl⟩⟩
    · rw [done]
      exact ⟨_,n,rfl,rfl,.inr ⟨rfl,.inr ⟨trivial,rfl⟩⟩⟩

theorem mknodIdRan {parent : Ref} {dir : Inode} {name : FileName} {kind : Kind} {link : Bytes}
    {e : Env Call} {d : State} {r t} (two : kind = .dir ∨ kind = .lnk)
    (ran : mknodId parent dir name kind link e d = some (r,t)) : ∃ made n,
      makeAt (.mknod .id) dir.idFd name kind (if kind = .dir then [] else link) e d.id = (made,n) ∧
      r = made ∧ ((∃ err, made = .error err) ∧ t = d ∨ made = .ok () ∧ ∀ (R : State → State → Prop)
        [IsPreorder State R], Prog.Keeps R (markNew parent dir name) → R {d with id := n} t) := by
  obtain ⟨made,n,call,same,failed | ⟨ok,⟨_,marked⟩ | ⟨_,rfl⟩⟩⟩ := mknodIdSome two ran
  · exact ⟨made,n,call,same,.inl failed⟩
  · exact ⟨made,n,call,same,.inr ⟨ok,fun R _ marks => marks e _ r t marked⟩⟩
  · exact ⟨made,n,call,same,.inr ⟨ok,fun R _ _ => refl_of R _⟩⟩

theorem mknodIdMade {parent : Ref} {dir : Inode} {name : FileName} {kind : Kind} {link : Bytes}
    {e : Env Call} {d : State} {r t} (two : kind = .dir ∨ kind = .lnk)
    (ran : mknodId parent dir name kind link e d = some (r,t)) : ∃ made n,
      makeAt (.mknod .id) dir.idFd name kind (if kind = .dir then [] else link) e d.id = (made,n) ∧
      r = made ∧ ((∃ err, made = .error err) ∧ t = d ∨
        made = .ok () ∧ ∀ b c, Around b c {d with id := n} t) := by
  obtain ⟨made,n,call,same,failed | ⟨ok,keeps⟩⟩ := mknodIdRan two ran
  · exact ⟨made,n,call,same,.inl failed⟩
  · exact ⟨made,n,call,same,.inr ⟨ok,fun b c => keeps (Around b c) (markNewAround parent dir name)⟩⟩

structure Entered (m m' : Mount Call) (dir : Slot) (name : FileName) (up : Entry) (p : List FileName)
    (entry : Entry) : Prop where
  was : m.dirAt dir = .ok (up,p)
  now : m'.dirAt dir = .ok (up,p)
  found : m'.vol.tree.find (p ++ [name]) = some entry
  dev : m'.vol.dev = m.vol.dev
  held : Held m.next m m'

def createdIno (c : Call) (m : Mount Call) (dir : Slot) (name : FileName) (e : Env Call) : Option Ino :=
  match m.dirAt dir with
  | .ok (_,p) => some (((m.vol.tree.find (p ++ [name])).map Entry.ino).getD (e.ino c))
  | .error _ => none

theorem createEntered {c : Call} {dir : Slot} {name flags e} {m : Mount Call} {fd m'}
    (ok : openCreate c dir name flags e m = (.ok fd,m')) : fd = .fd m.next ∧ ∃ up p entry,
      Entered m m' dir name up p entry ∧ entry.kind = .reg ∧
      (entry.ino = e.ino c ∨ m.vol.tree.find (p ++ [name]) = some entry) := by
  obtain ⟨up,p,f,was,now,_,_,kind,found,_⟩ := openCreateOk ok
  have held := openCreateHeld c dir name flags e m
  have grows := openCreateGrows c dir name flags e m
  rw [ok] at held grows
  rcases openCreateCases c dir name flags e m with ⟨err,same⟩ | ⟨up',p',entry,at_,old,_,same⟩ |
    ⟨up',p',v,at_,made,same⟩ <;> rw [ok] at same
  · cases same
  · cases was.symm.trans at_
    cases Option.some.inj ((grows.kept old).symm.trans found)
    exact ⟨Except.ok.inj (Prod.mk.inj same).1,up,p,_,⟨was,now,found,grows.dev,held⟩,kind,.inr old⟩
  · cases was.symm.trans at_
    cases (Prod.mk.inj same).2
    have new : v.tree.find (p ++ [name]) = some ⟨e.ino c,.reg⟩ := by rw [madeFind made,if_pos rfl]
    have number := congrArg Entry.ino (Option.some.inj (new.symm.trans found))
    exact ⟨Except.ok.inj (Prod.mk.inj same).1,up,p,_,⟨was,now,found,grows.dev,held⟩,kind,.inl number.symm⟩

theorem createdNumber {c : Call} {dir : Slot} {name flags e} {m : Mount Call} {fd m' up p entry}
    (ok : openCreate c dir name flags e m = (.ok fd,m')) (at_ : m.dirAt dir = .ok (up,p))
    (found : m'.vol.tree.find (p ++ [name]) = some entry) : createdIno c m dir name e = some entry.ino := by
  obtain ⟨_,up',p',entry',entered,_,number⟩ := createEntered ok
  cases entered.was.symm.trans at_
  cases entered.found.symm.trans found
  simp only [createdIno,at_]
  cases old : m.vol.tree.find (p ++ [name]) with
  | some before =>
    have grows := openCreateGrows c dir name flags e m
    rw [ok] at grows
    cases found.symm.trans (grows.kept old)
    rfl
  | none =>
    rcases number with new | there
    · simp [new]
    · rw [old] at there
      cases there

theorem makeEntered {c : Call} {dir : Slot} {name kind content e} {m m' : Mount Call}
    (ok : makeAt c dir name kind content e m = (.ok (),m')) : ∃ up p,
      Entered m m' dir name up p ⟨e.ino c,kind⟩ := by
  obtain ⟨up,p,v,at_,made,rfl⟩ := makeAtOk ok
  have grows := makeGrows made
  have held : Held m.next m {m with vol := v} := ⟨Nat.le_refl _,fun _ _ => rfl⟩
  obtain ⟨_,_,_,_,found⟩ := dirAtFile at_
  exact ⟨up,p,at_,heldDir held (grows.kept found) at_,by simp [madeFind made],grows.dev,held⟩

theorem Entered.still {m m1 m2 : Mount Call} {dir : Slot} {name up p entry}
    (entered : Entered m m1 dir name up p entry) (held : Held m.next m1 m2)
    (tree : m2.vol.tree = m1.vol.tree) :
    m2.dirAt dir = .ok (up,p) ∧ m2.vol.tree.find (p ++ [name]) = some entry := by
  obtain ⟨f,there,_⟩ := dirAtFile entered.was
  obtain ⟨n,rfl⟩ := fdOfFile there
  exact ⟨(dirAtSame (held.same n (fileOld there)) tree).trans entered.now,tree ▸ entered.found⟩

end F3.Driver
