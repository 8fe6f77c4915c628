import F3.DriverKeys
import F3.DriverAround
import F3.Lib.PosixOk

/-! When a lookup succeeds. Its own calls must not fail, and an ID inode must have an open
ID copy: the one it holds, or one that is there or can be made. -/
namespace F3.Driver
open Lib (Bytes Arena Cell Prog Act)
open Lib.Posix

def CopyCalm (e : Env Call) : Prop :=
  e.fault .lookupOpenId = none ∧ e.fault .lookupMkdir = none ∧ e.fault .lookupCreate = none ∧
    e.fault .lookupReopen = none ∧ e.fault .lookupStatId = none
instance (e) : Decidable (CopyCalm e) := by unfold CopyCalm; infer_instance

def Copyable (e : Env Call) (m : Mount Call) (idDir : Slot) (name : FileName) : Prop :=
  match m.dirAt idDir with
  | .ok (_,q) => m.vol.tree.find (q ++ [name]) = none →
      m.vol.Free (e.ino .lookupMkdir) ∧ m.vol.Free (e.ino .lookupCreate)
  | .error _ => False
instance (e m idDir name) : Decidable (Copyable e m idDir name) := by
  unfold Copyable
  rcases m.dirAt idDir with _ | ⟨_,q⟩ <;> infer_instance

theorem copyable {e : Env Call} {m : Mount Call} {idDir name} (can : Copyable e m idDir name) :
    ∃ up q, m.dirAt idDir = .ok (up,q) ∧ (m.vol.tree.find (q ++ [name]) = none →
      m.vol.Free (e.ino .lookupMkdir) ∧ m.vol.Free (e.ino .lookupCreate)) := by
  unfold Copyable at can
  split at can
  · rename_i up q at_
    exact ⟨up,q,at_,can⟩
  · contradiction

structure Copied (name : FileName) (q : List FileName) (copy : Slot × Bool) (m m' : Mount Call) :
    Prop where
  new : ∃ n, copy.1 = .fd n ∧ m.next ≤ n
  file : ∃ f, m'.file copy.1 = some f ∧ m'.vol.tree.find (q ++ [name]) = some f.entry

theorem reopened {e : Env Call} {m m1 : Mount Call} {idDir up q} {name : FileName} {entry}
    (calm : e.fault .lookupReopen = none) (at_ : m.dirAt idDir = .ok (up,q)) (held : Held m.next m m1)
    (kept : m1.vol.tree.find q = some up) (found : m1.vol.tree.find (q ++ [name]) = some entry)
    (b : Bool) : Copied name q (slotOf (openPath .lookupReopen idDir name e m1).1,b) m
      (openPath .lookupReopen idDir name e m1).2 := by
  rw [openPathFinds calm (heldDir held kept at_) found]
  exact ⟨⟨m1.next,rfl,held.next⟩,_,fileInstall m1 _,found⟩

theorem makesDir {e : Env Call} {m m1 : Mount Call} {idDir} {name : FileName} {r}
    (missing : openPath .lookupOpenId idDir name e m = (.error .enoent,m))
    (made : makeAt .lookupMkdir idDir name .dir [] e m = (r,m1)) :
    openIdCopy idDir name .dir e m = ((slotOf (openPath .lookupReopen idDir name e m1).1,false),
      (openPath .lookupReopen idDir name e m1).2) := by
  simp [openIdCopy,bind,missing,makeIdCopy,made,pure]

theorem makesFile {e : Env Call} {m m1 : Mount Call} {idDir} {name : FileName} {kind : Kind} {fd}
    (file : kind ≠ .dir) (missing : openPath .lookupOpenId idDir name e m = (.error .enoent,m))
    (made : openCreate .lookupCreate idDir name ⟨.read,false,false⟩ e m = (.ok fd,m1)) :
    openIdCopy idDir name kind e m =
      ((slotOf (openPath .lookupReopen idDir name e (close fd e m1).2).1,true),
        (openPath .lookupReopen idDir name e (close fd e m1).2).2) := by
  simp [openIdCopy,bind,missing,makeIdCopy,file,made,pure,slotOf]

theorem copyOpens {e : Env Call} {m : Mount Call} {idDir up q} {name : FileName} (kind : Kind)
    (calm : CopyCalm e) (at_ : m.dirAt idDir = .ok (up,q))
    (room : m.vol.tree.find (q ++ [name]) = none →
      m.vol.Free (e.ino .lookupMkdir) ∧ m.vol.Free (e.ino .lookupCreate)) :
    Copied name q (openIdCopy idDir name kind e m).1 m (openIdCopy idDir name kind e m).2 := by
  obtain ⟨opens,makes,creates,reopens,_⟩ := calm
  obtain ⟨_,_,_,_,stays⟩ := dirAtFile at_
  cases found : m.vol.tree.find (q ++ [name]) with
  | some entry =>
    simp only [openIdCopy,bind,openPathFinds opens at_ found,makeIdCopy,pure]
    exact ⟨⟨m.next,rfl,Nat.le_refl _⟩,_,fileInstall m _,found⟩
  | none =>
    obtain ⟨freeDir,freeFile⟩ := room found
    have missing := openPathMisses opens at_ found
    by_cases isDir : kind = .dir
    · obtain ⟨v,made,same⟩ := @makeAtSucceeds _ _ idDir name .dir [] e m up q makes at_ found freeDir
      have new : v.tree.find (q ++ [name]) = some _ := (madeFind made _).trans (if_pos rfl)
      rw [isDir,makesDir missing same]
      exact @reopened e m {m with vol := v} idDir up q name _ reopens at_ (sameHeld rfl rfl)
        ((makeGrows made).kept stays) new false
    · obtain ⟨v,made,same⟩ := @openCreateMakes _ _ idDir name ⟨.read,false,false⟩ e m up q creates at_
        found freeFile
      have new : v.tree.find (q ++ [name]) = some _ := (madeFind made _).trans (if_pos rfl)
      rw [makesFile isDir missing same]
      let m1 : Mount Call := {m with vol := v}
      let f : File := ⟨⟨e.ino .lookupCreate,.reg⟩,some (up,name),.read⟩
      have closed := closeQuiet (.fd m.next) e (m1.install f)
      have held : Held m.next m (close (.fd m.next) e (m1.install f)).2 :=
        trans_of (Held m.next) (@sameHeld _ _ m m1 rfl rfl) (openedHeld m1 f e)
      refine reopened reopens at_ held ?_ (closed.tree.symm ▸ new) true
      exact closed.tree.symm ▸ (makeGrows made).kept stays

theorem resolveFinds {e : Env Call} {m : Mount Call} {dir : Inode} {name : FileName} {srcDev up p entry}
    (opens : e.fault .lookupOpen = none) (stats : e.fault .lookupStat = none)
    (at_ : m.dirAt dir.fd = .ok (up,p)) (found : m.vol.tree.find (p ++ [name]) = some entry)
    (dev : m.vol.dev = srcDev) (reserved : entry.ino ≠ 1) :
    resolve e m srcDev dir name = some (.fd m.next,m.vol.stat entry) := by
  have stat := fstatKnows (e := e) stats (fileInstall m ⟨entry,some (up,name),.path⟩)
  have inside : ¬ ((m.vol.stat entry).dev ≠ srcDev ∨ (m.vol.stat entry).ino = 1) := by
    simp [Volume.stat,dev,reserved]
  simp only [resolve,openPathFinds opens at_ found,stat]
  exact if_neg inside

def CopiesOpen (d : State) : Prop :=
  ∀ c ∈ d.inodes.cells, c.value.Live → c.value.isId = true → (d.id.file c.value.idFd).isSome
instance (d) : Decidable (CopiesOpen d) := by unfold CopiesOpen; infer_instance

theorem answeredOpen {e : Env Call} {m : Mount Call} {isId : Bool} {idFd : Slot} {r}
    (calm : e.fault .lookupStatId = none) (opened : isId = true → ∃ f, m.file idFd = some f)
    (answered : Answered e m isId idFd r) : ∃ x, r = .ok x := by
  rcases answered with ⟨yes,err,failed,_⟩ | ⟨_,ok⟩
  · obtain ⟨f,known⟩ := opened yes
    rw [fstatKnows calm known] at failed
    contradiction
  · exact ok

/- A lookup that answers: the stat of the ID copy can only fail for an ID inode, whose copy
is open already, or is found or made by the lookup if there is room for it. -/
def StatsCopy (e : Env Call) (d : State) (dir : Inode) (name : FileName) (ino : Ino) (room : Prop) : Prop :=
  let i := slotted d (ino,d.fs.vol.dev)
  if i.Live then i.isId = true → e.fault .lookupStatId = none ∧ (d.id.file i.idFd).isSome = true
  else (i.isId || isNewId d.fs dir name) = true → CopyCalm e ∧ room

instance (e d dir name ino room) [Decidable room] : Decidable (StatsCopy e d dir name ino room) := by
  unfold StatsCopy
  infer_instance

theorem foundAtPath {m : Mount Call} {dir : Slot} {name : FileName} {up p} (at_ : m.dirAt dir = .ok (up,p)) :
    foundAt m dir name = m.vol.tree.find (p ++ [name]) := by
  simp [foundAt,at_]

theorem statsAnswered {parent e} {name : FileName} {d : State} {dir newfd attr r d'}
    (known : d.inode parent = some dir) (ok : doLookup parent name e d = some (r,d'))
    (found : resolve e d.fs d.conf.srcDev dir name = some (newfd,attr))
    (stats : ∀ entry ∈ foundAt d.fs dir.fd name,
      StatsCopy e d dir name entry.ino (Copyable e d.id dir.idFd name)) : ∃ x, r = .ok x := by
  obtain ⟨up,p,entry,at_,there,_,rfl,_⟩ := resolved found
  have copy := stats entry ((foundAtPath at_).trans there)
  have told := lookupTold known ok
  simp only [Told,found] at told
  simp only [StatsCopy] at copy
  split at told
  · rename_i live
    rw [if_pos (by exact live)] at copy
    rcases told.2 with ⟨isId,err,failed,_⟩ | ⟨_,answered⟩
    · obtain ⟨calm,opened⟩ := copy isId
      obtain ⟨f,file⟩ := Option.isSome_iff_exists.mp opened
      exact answeredOpen calm (fun _ => ⟨f,file⟩) told.2
    · exact answered
  · rename_i dead
    rw [if_neg (by exact dead)] at copy
    rcases told.2 with ⟨isId,err,failed,_⟩ | ⟨_,answered⟩
    · have asks : ((slotted d (entry.ino,d.fs.vol.dev)).isId || isNewId d.fs dir name) = true := by
        rcases Bool.or_eq_true_iff.mp isId with old | new
        · exact Bool.or_eq_true_iff.mpr (Or.inl old)
        · refine Bool.or_eq_true_iff.mpr (Or.inr ?_)
          by_contra plain
          rw [Keys.isNewHereBack at_ (Bool.eq_false_iff.mpr plain)] at new
          cases new
      obtain ⟨calm,can⟩ := copy asks
      obtain ⟨idUp,q,atId,room⟩ := copyable can
      obtain ⟨f,here,_⟩ := (copyOpens (d.fs.vol.stat entry).kind calm atId room).file
      exact answeredOpen calm.2.2.2.2 (fun _ => ⟨f,told.1 ▸ here⟩) told.2
    · exact answered

structure Reached (parent : Ref) (dir : Inode) (name : FileName) (number : Ino) (d t : State) : Prop where
  known : t.inode parent = some dir
  inodes : t.inodes = d.inodes
  conf : t.conf = d.conf
  dev : t.fs.vol.dev = d.fs.vol.dev
  idDev : t.id.vol.dev = d.id.vol.dev
  heldId : Held d.id.next d.id t.id
  plain : isNewId d.fs dir name = false → isNewId t.fs dir name = false
  named : ∃ up p entry, d.fs.dirAt dir.fd = .ok (up,p) ∧ t.fs.dirAt dir.fd = .ok (up,p) ∧
    t.fs.vol.tree.find (p ++ [name]) = some entry ∧ entry.ino = number

theorem aroundInode {b c : Fd} {d t : State} (around : Around b c d t) (ref : Ref) :
    t.inode ref = d.inode ref := by
  cases ref with
  | root => simp [State.inode,around.root]
  | node a => simp [State.inode,around.inodes]

theorem createReached {parent : Ref} {name : FileName} {flags : Flags} {e : Env Call} {d t : State}
    {dir fd idFd m n fh} (known : d.inode parent = some dir)
    (opened : openCreate (.create .fs) dir.fd name flags e d.fs = (.ok fd,m))
    (openedId : openCreate (.create .id) dir.idFd name flags e d.id = (.ok idFd,n))
    (chosen : chooseCopy parent name fd idFd e {d with fs := m, id := n} = some (fh,t)) :
    ∃ number, createdIno (.create .fs) d.fs dir.fd name e = some number ∧
      Reached parent dir name number d t ∧ Copyable e t.id dir.idFd name := by
  obtain ⟨rfl,up,p,entry,fs,_⟩ := createEntered opened
  obtain ⟨_,idUp,q,idEntry,id,_⟩ := createEntered openedId
  have around : ∀ c, Around d.fs.next c {d with fs := m, id := n} t :=
    fun c => chooseAround (Nat.le_refl _) e _ fh t chosen
  obtain ⟨at_,found⟩ := fs.still ((around 0).held fs.held.next) (around 0).tree
  have same : State.inode {d with fs := m, id := n} parent = some dir := by cases parent <;> exact known
  refine ⟨_,createdNumber opened fs.was fs.found,⟨(aroundInode (around 0) parent).trans same,
    (around 0).inodes,(around 0).conf,
    (around 0).dev.trans fs.dev,(around 0).idDev.trans id.dev,
    trans_of (Held d.id.next) id.held ((around d.id.next).heldId id.held.next),fun isNew => ?_,
    ⟨up,p,entry,fs.was,at_,found,rfl⟩⟩,?_⟩
  · have grows := openCreateGrows (.create .fs) dir.fd name flags e d.fs
    rw [opened] at grows
    have one : Keys.Beside d {d with fs := m, id := n} := ⟨grows,rfl,rfl⟩
    obtain ⟨known1,isNew1,_⟩ := Keys.plainBeside one known fs.was isNew
    obtain ⟨b,_,asked,outcome⟩ := chooseSome chosen
    obtain ⟨rfl,more⟩ := Keys.newIdNo known1 isNew1 asked
    rcases outcome with ⟨_,rfl⟩ | ⟨yes,_⟩ <;> try contradiction
    exact (Keys.plainBeside (trans_of Keys.Beside one more) known fs.was isNew).2.1
  · obtain ⟨at_,found⟩ := id.still ((around d.id.next).heldId id.held.next) (around 0).idTree
    simp [Copyable,at_,found]

theorem mknodReached {parent : Ref} {name : FileName} {kind : Kind} {link : Bytes} {e : Env Call}
    {d t : State} {dir m} (known : d.inode parent = some dir)
    (made : makeAt (.mknod .fs) dir.fd name kind link e d.fs = (.ok (),m))
    (copied : mknodId parent dir name kind link e {d with fs := m} = some (.ok (),t)) :
    Reached parent dir name (e.ino (.mknod .fs)) d t ∧
      (kind = .dir ∨ kind = .lnk ∨ Copyable e d.id dir.idFd name → Copyable e t.id dir.idFd name) := by
  obtain ⟨up,p,fs⟩ := makeEntered made
  have same : State.inode {d with fs := m} parent = some dir := by cases parent <;> exact known
  have plain : isNewId d.fs dir name = false → isNewId t.fs dir name = false := by
    intro isNew
    have grows := makeAtGrows (.mknod .fs) dir.fd name kind link e d.fs
    rw [made] at grows
    have one : Keys.Beside d {d with fs := m} := ⟨grows,rfl,rfl⟩
    obtain ⟨known1,isNew1,_⟩ := Keys.plainBeside one known fs.was isNew
    have two := trans_of Keys.Beside one (Keys.mknodIdPlain known1 isNew1 copied)
    exact (Keys.plainBeside two known fs.was isNew).2.1
  by_cases two : kind = .dir ∨ kind = .lnk
  · obtain ⟨_,n,madeId,rfl,⟨⟨_,wrong⟩,_⟩ | ⟨_,around⟩⟩ := mknodIdMade two copied
    · cases wrong
    obtain ⟨_,_,id⟩ := makeEntered madeId
    obtain ⟨at_,found⟩ := fs.still ((around d.fs.next 0).held fs.held.next) (around 0 0).tree
    have sameId : State.inode {d with fs := m, id := n} parent = some dir := by cases parent <;> exact known
    refine ⟨⟨(aroundInode (around 0 0) parent).trans sameId,(around 0 0).inodes,(around 0 0).conf,
      (around 0 0).dev.trans fs.dev,(around 0 0).idDev.trans id.dev,
      trans_of (Held d.id.next) id.held ((around 0 d.id.next).heldId id.held.next),plain,
      ⟨up,p,_,fs.was,at_,found,rfl⟩⟩,fun _ => ?_⟩
    obtain ⟨at_,found⟩ := id.still ((around 0 d.id.next).heldId id.held.next) (around 0 0).idTree
    simp [Copyable,at_,found]
  · have none : mknodId parent dir name kind link = pure (.ok ()) := by
      cases kind <;> first | rfl | exact absurd (by simp) two
    rw [none] at copied
    obtain ⟨_,rfl⟩ := Prog.pureSome copied
    exact ⟨⟨same,rfl,rfl,fs.dev,rfl,refl_of (Held d.id.next) d.id,plain,
      ⟨up,p,_,fs.was,fs.now,fs.found,rfl⟩⟩,
      fun room => ((or_assoc.mpr room).resolve_left two)⟩

theorem reachedStats {parent : Ref} {dir : Inode} {name : FileName} {e : Env Call} {number : Ino}
    {d t : State} {room room' : Prop} (reached : Reached parent dir name number d t) (copy : room → room')
    (stats : StatsCopy e d dir name number room) : StatsCopy e t dir name number room' := by
  have slot : slotted t (number,t.fs.vol.dev) = slotted d (number,d.fs.vol.dev) := by
    simp [slotted,reached.inodes,reached.dev]
  simp only [StatsCopy,slot] at stats ⊢
  split at stats
  · rename_i live
    rw [if_pos live]
    intro isId
    obtain ⟨calm,opened⟩ := stats isId
    obtain ⟨f,file⟩ := Option.isSome_iff_exists.mp opened
    obtain ⟨n,isFd⟩ := fdOfFile file
    rw [isFd] at file ⊢
    exact ⟨calm,by simp [reached.heldId.same n (fileOld file),file]⟩
  · rename_i dead
    rw [if_neg dead]
    intro asks
    refine (stats ?_).imp id copy
    rcases Bool.or_eq_true_iff.mp asks with old | new
    · exact Bool.or_eq_true_iff.mpr (Or.inl old)
    · refine Bool.or_eq_true_iff.mpr (Or.inr ?_)
      by_contra plain
      rw [reached.plain (Bool.eq_false_iff.mpr plain)] at new
      cases new

theorem reachedAnswers {parent : Ref} {dir : Inode} {name : FileName} {e : Env Call} {number : Ino}
    {d t t' : State} {newfd attr r} (reached : Reached parent dir name number d t)
    (stats : StatsCopy e t dir name number (Copyable e t.id dir.idFd name))
    (ok : doLookup parent name e t = some (r,t'))
    (found : resolve e t.fs t.conf.srcDev dir name = some (newfd,attr)) : ∃ x, r = .ok x := by
  obtain ⟨up,p,entry,_,at_,there,rfl⟩ := reached.named
  refine statsAnswered reached.known ok found fun other here => ?_
  cases there.symm.trans ((foundAtPath at_).symm.trans here)
  exact stats

theorem createdShut (idDir : Slot) (name : FileName) (e : Env Call) (m : Mount Call) :
    Held m.next (openCreate .lookupCreate idDir name ⟨.read,false,false⟩ e m).2
      (close (slotOf (openCreate .lookupCreate idDir name ⟨.read,false,false⟩ e m).1) e
        (openCreate .lookupCreate idDir name ⟨.read,false,false⟩ e m).2).2 := by
  rcases openCreateCases .lookupCreate idDir name ⟨.read,false,false⟩ e m with ⟨_,same⟩ |
    ⟨_,_,_,_,_,_,same⟩ | ⟨_,_,_,_,_,same⟩ <;> rw [same]
  · exact refl_of (Held m.next) m
  · exact closeHeld (Nat.le_refl _) e _
  · exact closeHeld (Nat.le_refl _) e _

theorem openIdCopyHeld (idDir : Slot) (name : FileName) (kind : Kind) (e : Env Call) (m : Mount Call) :
    Held m.next m (openIdCopy idDir name kind e m).2 := by
  have again : ∀ n : Mount Call, m.next ≤ n.next → Held m.next n (openPath .lookupReopen idDir name e n).2 :=
    fun n below => heldLess below (openPathHeld .lookupReopen idDir name e n)
  simp only [openIdCopy,bind]
  rcases openPathCases .lookupOpenId idDir name e m with ⟨err,failed⟩ | ⟨_,_,entry,_,_,done⟩
  · rw [failed]
    cases err with
    | enoent =>
      unfold makeIdCopy
      split
      · have made : Held m.next m (makeAt .lookupMkdir idDir name .dir [] e m).2 := by
          rcases makeAtCases .lookupMkdir idDir name .dir [] e m with ⟨_,same⟩ | ⟨_,_,v,_,_,same⟩ <;>
            rw [same]
          · exact refl_of (Held m.next) m
          · exact sameHeld rfl rfl
        exact trans_of (Held m.next) made (again _ made.next)
      · have made := openCreateHeld .lookupCreate idDir name ⟨.read,false,false⟩ e m
        have shut := createdShut idDir name e m
        exact trans_of (Held m.next) (trans_of (Held m.next) made shut)
          (again _ (made.next.trans shut.next))
    | _ => exact refl_of (Held m.next) m
  · rw [done]
    exact installHeld (Nat.le_refl _) _

theorem lookupHeldId {parent name e} {d : State} {r d'} (ok : doLookup parent name e d = some (r,d')) :
    Held d.id.next d.id d'.id := by
  obtain ⟨dir,u,first,_⟩ := Prog.bindSome ok
  obtain ⟨rfl,known,_⟩ := getInodeSome first
  have told := lookupTold known ok
  unfold Told at told
  split at told
  · rw [told]
    exact refl_of (Held u.id.next) u.id
  · simp only at told
    split at told
    · rw [told.1]
      exact refl_of (Held u.id.next) u.id
    · rw [told.1]
      exact openIdCopyHeld _ _ _ e u.id

end F3.Driver
