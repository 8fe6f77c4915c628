import F3.DriverService
import F3.DriverTable
import F3.DriverFrames

/-! How many replies a request gets. A handler stops at its first reply, except where it
works on the second tree after it has replied an error of the first: each such error is
one reply more. -/
namespace F3.Driver.Service
open Lib (Bytes Arena Cell Prog)
open Lib.Prog (keepsBind keepsPure keepsOnlyIf keepsIte keepsGet endsStep endsWeaken)
open Lib.Posix
variable {α β : Type}

-- get_inode does not abort on it.
def Known (d : State) (ref : Ref) : Prop :=
  ∃ i, d.inode ref = some i ∧ (ref ≠ .root → i.fd ≠ .closed)

def Kept (d d' : State) : Prop := ∀ ref, Known d ref → Known d' ref

theorem keptSame {d d' : State} (inodes : d'.inodes = d.inodes) (root : d'.root = d.root) :
    Kept d d' := by
  rintro ref ⟨i,known,filled⟩
  refine ⟨i,?_,filled⟩
  cases ref with
  | root => simpa [State.inode,root] using known
  | node a => simpa [State.inode,inodes] using known

theorem keptMount (d : State) (side : Side) (m : Mount Call) : Kept d (d.setMount side m) := by
  cases side <;> exact keptSame rfl rfl

theorem inodeModified {d' : State} {t : Arena SrcId Inode} {a : Nat} {f : Inode → Inode} {c}
    (table : d'.inodes = t.modify a f) (here : t.atAddr a = some c) :
    d'.inode (.node a) = some (f c.value) := by
  simp only [State.inode,table]
  rw [Arena.atAddrModify here]
  rfl

theorem keptModify {d d' : State} {a : Nat} {f : Inode → Inode} (root : d'.root = d.root)
    (table : d'.inodes = d.inodes.modify a f)
    (filled : ∀ c, d.inodes.atAddr a = some c → (f c.value).fd ≠ .closed) : Kept d d' := by
  rintro ref ⟨i,known,open_⟩
  cases ref with
  | root => exact ⟨i,by simpa [State.inode,root] using known,open_⟩
  | node b =>
    obtain ⟨c,here,same⟩ := Option.map_eq_some_iff.mp known
    by_cases there : b = a
    · subst b
      exact ⟨f c.value,inodeModified table here,fun _ => filled c here⟩
    · refine ⟨i,?_,open_⟩
      simp only [State.inode,table]
      rw [Arena.atAddrModifyOther there,here]
      exact congrArg some same

theorem keptTrans {d d' d'' : State} (one : Kept d d') (two : Kept d' d'') : Kept d d'' :=
  fun ref known => two ref (one ref known)

def Counted (d : State) (x : EntryParam) : Prop :=
  ∃ a i, x.ino = some a ∧ d.inode (.node a) = some i ∧ i.fd ≠ .closed ∧ 0 < i.nlookup

theorem lookedKept {parent name e} {d : State} {r d'} (root : d'.root = d.root)
    (looked : Looked parent name e d r d') :
    Kept d d' ∧ ∀ x, r = .ok x → Counted d' x := by
  cases looked with
  | missed up nothing failed table =>
    refine ⟨keptSame table root,fun x ok => ?_⟩
    obtain ⟨err,same⟩ := failed
    rw [same] at ok
    contradiction
  | @known dir newfd attr c src up found here live plain named table =>
    have at_ := Arena.memAtAddr (Arena.atKeyMem here).1
    refine ⟨keptModify root table fun b same => ?_,fun x ok => ?_⟩
    · rw [at_] at same
      cases Option.some.inj same
      exact live.1
    · exact ⟨c.addr,_,named x ok,inodeModified table at_,live.1,Nat.succ_pos c.value.nlookup⟩
  | @built dir newfd attr c src conn up found key old entered dead plain named table =>
    obtain ⟨_,_,_,_,_,newest,_⟩ := resolved found
    have filled : newfd ≠ .closed := by simp [newest]
    let d1 : State := {d with inodes := (d.inodes.enter c.key {}).1}
    have first : Kept d d1 := fun ref ⟨i,known,open_⟩ => ⟨i,inodeEntered c.key known,open_⟩
    refine ⟨keptTrans first (@keptModify d1 d' c.addr _ root table fun _ _ => filled),fun x ok => ?_⟩
    exact ⟨c.addr,_,named x ok,inodeModified table entered,filled,Nat.succ_pos c.value.nlookup⟩

def Mute (d d' : State) : Prop := d'.replies = d.replies

instance : IsPreorder State Mute where
  refl _ := rfl
  trans _ _ _ one two := Eq.trans two one

theorem sysMute (side : Side) (p : Sys Call α) : Prog.Keeps Mute (sys side p) := by
  intro e d a d' ok
  rw [(sysSome ok).2]
  cases side <;> rfl

theorem setInodeMute (ref : Ref) (f : Inode → Inode) : Prog.Keeps Mute (setInode ref f) :=
  Prog.keepsModify fun d => by cases ref <;> rfl

theorem muteLookup (newfd : Slot) : KeepsLookup Mute newfd where
  sets _ _ := setInodeMute _ _
  sockets _ _ := rfl
  asks := sysMute .fs _
  copies := sysMute .id _
  closes := sysMute .fs _
  stats := sysMute .id _
  sizes := sysMute .fs _

theorem isNewMute (caller : Caller) (parent : Ref) (name : FileName) :
    Prog.Keeps Mute (f3IsNewId caller parent name) := (muteLookup .closed).isNew caller parent name

theorem lookupMute (parent : Ref) (name : FileName) : Prog.Keeps Mute (doLookup parent name) :=
  lookupKeeps muteLookup (sysMute .fs _) (sysMute .fs _) (fun _ _ => rfl) parent

theorem startMute (ino : Ref) (i : Inode) : Prog.Keeps Mute (startDownload ino i) :=
  startKeeps (sysMute .fs _) (sysMute .fs _) (fun _ => Prog.keepsModify fun _ => rfl) (fun _ => setInodeMute ino _) i

theorem chooseMute (parent : Ref) (name : FileName) (fd idFd : Slot) :
    Prog.Keeps Mute (chooseCopy parent name fd idFd) :=
  chooseKeeps (isNewMute _ _ _) (sysMute _ _) (sysMute .fs _) fun _ _ => rfl

theorem markDirMute (side : Side) (dir : Inode) (name : FileName) :
    Prog.Keeps Mute (markDir side dir name) :=
  keepsBind keepsGet fun _ => keepsBind (sysMute side _) fun _ =>
    keepsBind (sysMute side _) fun _ => sysMute side _

theorem mknodIdMute (parent : Ref) (dir : Inode) (name : FileName) (kind : Kind) (link : Bytes) :
    Prog.Keeps Mute (mknodId parent dir name kind link) :=
  mknodIdKeeps (sysMute .id _) (isNewMute _ _ _) (fun side => markDirMute side dir name) kind link

def Says (n : Nat) (p : Handler α) (e : Env Call) (d : State) : Prop :=
  Prog.Ends p (fun _ t => t.replies.length = d.replies.length + n) e d

theorem quietStep {n : Nat} {p : Handler α} {f : α → Handler β} {e} {d t : State} {a}
    (first : p e d = some (a,t)) (mute : Mute d t) (rest : Says n (f a) e t) :
    Says n (p >>= f) e d := by
  have same : t.replies = d.replies := mute
  exact endsStep first (endsWeaken rest fun _ _ count => same ▸ count)

section Rules
variable {n : Nat} {e : Env Call} {d : State}

theorem saysReply (r : Reply) : Says 1 (reply r) e d := ⟨(),_,rfl,by simp⟩

theorem saysReplyErr (r : Except Errno α) : Says 1 (replyErr r) e d := by
  cases r <;> exact saysReply _

theorem inodeStep {ref : Ref} {f : Inode → Handler β} (known : Known d ref)
    (rest : ∀ i, d.inode ref = some i → Says n (f i) e d) : Says n (getInode ref >>= f) e d := by
  obtain ⟨i,here,filled⟩ := known
  exact quietStep (getInodeEq e here filled) rfl (rest i here)

theorem sysStep {side : Side} {p : Sys Call α} {f : α → Handler β}
    (rest : Says n (f (p e (d.mount side)).1) e (d.setMount side (p e (d.mount side)).2)) :
    Says n (sys side p >>= f) e d :=
  quietStep rfl (sysMute side p e d _ _ rfl) rest

theorem getStep {f : State → Handler β} (rest : Says n (f d) e d) : Says n (Prog.get >>= f) e d :=
  quietStep rfl rfl rest

theorem setStep {ref : Ref} {g : Inode → Inode} {f : Unit → Handler β}
    (rest : Says n (f ()) e (d.setInode ref g)) : Says n (setInode ref g >>= f) e d :=
  quietStep rfl (setInodeMute ref g e d _ _ rfl) rest

theorem lookupEnds {parent : Ref} (name : FileName) (known : Known d parent) :
    ∃ r t, doLookup parent name e d = some (r,t) ∧ Mute d t ∧ Kept d t ∧
      ∀ x, r = .ok x → Counted t x := by
  obtain ⟨i,here,filled⟩ := known
  obtain ⟨r,t,ran,looked,_⟩ := @lookupRuns parent e name d i (getInodeEq e here filled)
  exact ⟨r,t,ran,lookupMute parent name e d r t ran,
    lookedKept (doLookupLooks parent name e d r t ran).root looked⟩

theorem lookupStep {parent : Ref} {name : FileName} {f : Except Errno EntryParam → Handler β}
    (known : Known d parent) (rest : ∀ r t, doLookup parent name e d = some (r,t) → Kept d t →
      (∀ x, r = .ok x → Counted t x) → Says n (f r) e t) : Says n (doLookup parent name >>= f) e d := by
  obtain ⟨r,t,ran,mute,kept,counted⟩ := @lookupEnds e d parent name known
  exact quietStep ran mute (rest r t ran kept counted)

def Plain (p : Handler α) (e : Env Call) (d : State) : Prop :=
  Prog.Ends p (fun _ t => Mute d t ∧ Kept d t) e d

theorem plainStep {p : Handler α} {f : α → Handler β} (plain : Plain p e d)
    (rest : ∀ a t, Kept d t → Says n (f a) e t) : Says n (p >>= f) e d := by
  obtain ⟨a,t,first,mute,kept⟩ := plain
  exact quietStep first mute (rest a t kept)

theorem plainRan {p : Handler α} {a t} (plain : Plain p e d) (ran : p e d = some (a,t)) :
    Mute d t ∧ Kept d t := by
  obtain ⟨_,_,again,mute,kept⟩ := plain
  cases again.symm.trans ran
  exact ⟨mute,kept⟩

theorem plainSys (side : Side) (p : Sys Call α) : Plain (sys side p) e d :=
  ⟨_,_,rfl,sysMute side p e d _ _ rfl,keptMount d side _⟩

theorem plainPure (a : α) : Plain (pure a : Handler α) e d := ⟨a,d,rfl,rfl,fun _ known => known⟩

theorem plainGet : Plain (Prog.get : Handler State) e d := ⟨d,d,rfl,rfl,fun _ known => known⟩

theorem plainBind {p : Handler α} {f : α → Handler β} (first : Plain p e d)
    (rest : ∀ a t, Kept d t → Plain (f a) e t) : Plain (p >>= f) e d := by
  obtain ⟨a,t,one,mute,kept⟩ := first
  obtain ⟨b,u,two,mute',kept'⟩ := rest a t kept
  exact ⟨b,u,(Prog.bindEq one).trans two,trans_of Mute mute mute',keptTrans kept kept'⟩

theorem plainAndThen {p : Handler (Except Errno α)} {f : α → Handler (Except Errno β)}
    (first : Plain p e d) (rest : ∀ a t, Kept d t → Plain (f a) e t) : Plain (andThen p f) e d := by
  refine plainBind first fun r t kept => ?_
  cases r with
  | error err => exact plainPure _
  | ok a => exact rest a t kept

theorem plainOnlyIf {c : Prop} [Decidable c] {p : Handler Unit} (body : Plain p e d) :
    Plain (Prog.onlyIf c p) e d := by
  unfold Prog.onlyIf
  split
  · exact body
  · exact plainPure ()

theorem plainModify {f : State → State} (replies : (f d).replies = d.replies)
    (inodes : (f d).inodes = d.inodes) (root : (f d).root = d.root) : Plain (Prog.modify f) e d :=
  ⟨(),f d,rfl,replies,keptSame inodes root⟩

theorem plainSet (ref : Ref) {g : Inode → Inode} (same : ∀ i, (g i).fd = i.fd) :
    Plain (setInode ref g) e d := by
  refine ⟨(),d.setInode ref g,rfl,setInodeMute ref g e d _ _ rfl,?_⟩
  rintro other ⟨i,known,filled⟩
  cases ref with
  | root =>
    cases other with
    | root => exact ⟨g d.root,rfl,fun ne => absurd rfl ne⟩
    | node b => exact ⟨i,known,filled⟩
  | node a =>
    by_cases there : other = .node a
    · subst there
      obtain ⟨c,here,rfl⟩ := Option.map_eq_some_iff.mp known
      exact ⟨g c.value,inodeModified rfl here,fun ne => (same c.value).symm ▸ filled ne⟩
    · exact ⟨i,(inodeOther g there).trans known,filled⟩

theorem plainInode {ref : Ref} (known : Known d ref) : Plain (getInode ref) e d := by
  obtain ⟨i,here,filled⟩ := known
  exact ⟨i,d,getInodeEq e here filled,rfl,fun _ known => known⟩

theorem plainLookup {parent : Ref} (name : FileName) (known : Known d parent) :
    Plain (doLookup parent name) e d := by
  obtain ⟨r,t,ran,mute,kept,_⟩ := @lookupEnds e d parent name known
  exact ⟨r,t,ran,mute,kept⟩

theorem plainIsNew (caller : Caller) {parent : Ref} (name : FileName) (known : Known d parent) :
    Plain (f3IsNewId caller parent name) e d :=
  plainBind (plainInode known) fun _ _ _ => plainBind (plainSys .fs _) fun _ _ _ => plainPure _

theorem plainMarkDir (side : Side) (dir : Inode) (name : FileName) :
    Plain (markDir side dir name) e d :=
  plainBind plainGet fun _ _ _ => plainBind (plainSys side _) fun _ _ _ =>
    plainBind (plainSys side _) fun _ _ _ => plainSys side _

theorem plainMknodId {parent : Ref} (dir : Inode) (name : FileName) (kind : Kind) (link : Bytes)
    (known : Known d parent) : Plain (mknodId parent dir name kind link) e d := by
  cases kind with
  | dir =>
    refine plainAndThen (plainSys .id _) fun _ t kept => ?_
    refine plainBind (plainIsNew .handler name (kept parent known)) fun _ _ _ => ?_
    exact plainBind (plainOnlyIf (plainBind (plainMarkDir .fs dir name) fun _ _ _ =>
      plainMarkDir .id dir name)) fun _ _ _ => plainPure _
  | lnk => exact plainSys .id _
  | reg => exact plainPure _
  | special => exact plainPure _

theorem plainChoose {parent : Ref} (name : FileName) (fd idFd : Slot) (known : Known d parent) :
    Plain (chooseCopy parent name fd idFd) e d := by
  refine plainBind (plainIsNew .handler name known) fun b t _ => ?_
  split
  · refine plainBind plainGet fun _ _ _ => plainBind (plainSys .fs _) fun _ _ _ => ?_
    refine plainBind (plainSys .id _) fun _ _ _ => plainBind (plainModify rfl rfl rfl) fun _ _ _ => ?_
    exact plainBind (plainSys .fs _) fun _ _ _ => plainPure _
  · exact plainPure _

theorem plainRequest (clientFd : Option Nat) (path servers : Bytes) :
    Plain (requestFile clientFd path servers) e d := by
  unfold Plain Prog.Ends requestFile
  split
  · exact ⟨(),_,rfl,rfl,keptSame rfl rfl⟩
  · exact ⟨(),d,rfl,rfl,keptSame rfl rfl⟩

theorem plainDownload (ino : Ref) (inode : Inode) : Plain (startDownload ino inode) e d :=
  plainBind (plainSys .fs _) fun _ _ _ => plainBind (plainSys .fs _) fun _ _ _ =>
    plainBind (plainRequest _ _ _) fun _ _ _ => plainBind (plainSys .fs _) fun _ _ _ =>
    plainSet ino fun _ => rfl

theorem plainSendfile (fsFd idFd : Slot) (fuel round offset : Nat) :
    Plain (sendfileLoop fsFd idFd fuel round offset) e d := by
  induction fuel generalizing round offset d with
  | zero => exact plainPure _
  | succ fuel ih =>
    unfold Plain Prog.Ends sendfileLoop
    split
    · exact ⟨_,d,rfl,rfl,fun _ known => known⟩
    · simp only
      split
      · exact ⟨_,d,rfl,rfl,fun _ known => known⟩
      · obtain ⟨a,t,ran,mute,kept⟩ := @ih _ _ _
        exact ⟨a,t,ran,mute,keptTrans (keptSame rfl rfl) kept⟩
    · exact ⟨_,d,rfl,rfl,fun _ known => known⟩

theorem plainConvert {ino : Ref} (name : Bytes) (known : Known d ino) :
    Plain (convertUnmarked ino name) e d := by
  unfold convertUnmarked
  split
  · refine plainBind (plainInode known) fun inode _ _ => ?_
    refine plainBind (plainSys .fs _) fun fsFd _ _ => plainBind (plainSys .id _) fun idFd _ _ => ?_
    refine plainBind plainGet fun _ _ _ => plainBind (plainSendfile _ _ _ _ _) fun copied _ _ => ?_
    refine plainBind ?_ fun _ _ _ => plainBind (plainSys .fs _) fun _ _ _ =>
      plainBind (plainSys .id _) fun _ _ _ => plainPure _
    cases copied with
    | error err => exact plainPure _
    | ok _ =>
      exact plainBind (plainSys .id _) fun _ _ _ =>
        plainBind (plainSet ino fun _ => rfl) fun _ _ _ => plainPure _
  · exact plainPure _

end Rules

def failed : Except Errno α → Nat
  | .ok _ => 0
  | .error _ => 1

section Twice
variable {k n : Nat} {e : Env Call} {d : State}

theorem firstStep (r : Except Errno Unit) {f : Unit → Handler β}
    (rest : ∀ replies, Says n (f ()) e {d with replies := replies}) :
    Says (failed r + n) (replyFirst r >>= f) e d := by
  cases r with
  | ok _ =>
    rw [failed,Nat.zero_add]
    exact rest d.replies
  | error err =>
    obtain ⟨b,t,ran,count⟩ := rest (d.replies ++ [.err (some err)])
    refine ⟨b,t,ran,?_⟩
    simp only [List.length_append,List.length_singleton] at count
    show t.replies.length = d.replies.length + (1 + n)
    rw [count,Nat.add_assoc]

theorem bothSays {fsCall idCall : Sys Call (Except Errno Unit)} {last : Except Errno Unit → Handler Unit}
    (ends : ∀ t : State, Kept d t → Says k (last (idCall e d.id).1) e t) :
    Says (failed (fsCall e d.fs).1 + k) (do
      let first ← sys .fs fsCall
      replyFirst first
      let second ← sys .id idCall
      last second) e d := by
  refine sysStep (firstStep _ fun replies => sysStep ?_)
  exact ends _ (keptSame rfl rfl)

theorem saysUnlinkBoth (dir : Inode) (name : FileName) :
    Says (failed (unlinkAt (.unlink .fs) dir.fd name false e d.fs).1 +
      (failed (unlinkAt (.unlink .id) dir.idFd name false e d.id).1 + 1)) (unlinkBoth dir name) e d :=
  bothSays fun _ _ => firstStep _ fun _ => saysReply _

end Twice

section Forgets
variable {e : Env Call} {d : State}

-- The kernel gives back no more references than the inode counts.
def Held (d : State) (ino : Ref) (n : Nat) : Prop :=
  ∃ i, d.inode ino = some i ∧ (ino ≠ .root → i.fd ≠ .closed) ∧ n ≤ i.nlookup

theorem plainErase (key : SrcId) (e : Env Call) (d : State) :
    Prog.Ends (eraseInode key) (fun _ t => Mute d t) e d := by
  refine endsStep (show Prog.get e d = some (d,d) from rfl) ?_
  cases d.inodes.atKey key with
  | none => exact ⟨(),d,rfl,rfl⟩
  | some c => exact ⟨(),_,rfl,rfl⟩

theorem forgetRuns {ino : Ref} {n : Nat} (held : Held d ino n) :
    Prog.Ends (forgetOne ino n) (fun _ t => Mute d t) e d := by
  obtain ⟨i,known,filled,enough⟩ := held
  refine endsStep (getInodeEq e known filled) ?_
  rw [if_neg (Nat.not_lt.mpr enough)]
  let g : Inode → Inode := fun i => {i with nlookup := i.nlookup - n}
  have same : Mute d (d.setInode ino g) := setInodeMute ino g e d _ _ rfl
  refine endsStep (show setInode ino g e d = some ((),d.setInode ino g) from rfl) ?_
  unfold Prog.onlyIf
  split
  · exact endsWeaken (plainErase _ e _) fun _ t mute => trans_of Mute same mute
  · exact ⟨(),_,rfl,same⟩

theorem forgetStep {k : Nat} {ino : Ref} {n : Nat} {f : Unit → Handler β} (held : Held d ino n)
    (rest : ∀ t, forgetOne ino n e d = some ((),t) → Says k (f ()) e t) :
    Says k (forgetOne ino n >>= f) e d := by
  obtain ⟨_,t,ran,mute⟩ := @forgetRuns e d ino n held
  exact quietStep ran mute (rest t ran)

def HeldAll (e : Env Call) : State → List (Ref × Nat) → Prop
  | _,[] => True
  | d,(ino,n)::rest => Held d ino n ∧ ∀ t, forgetOne ino n e d = some ((),t) → HeldAll e t rest

theorem saysForgetAll {forgets : List (Ref × Nat)} (held : HeldAll e d forgets) :
    Says 0 (forgetAll forgets) e d := by
  induction forgets generalizing d with
  | nil => exact ⟨(),d,rfl,rfl⟩
  | cons f rest ih => exact forgetStep held.1 fun t ran => ih (held.2 t ran)

theorem countedHeld {x : EntryParam} (counted : Counted d x) :
    ∃ a, x.ino = some a ∧ Held d (.node a) 1 := by
  obtain ⟨a,i,named,known,filled,positive⟩ := counted
  exact ⟨a,named,i,known,fun _ => filled,positive⟩

theorem forgetEntryEnds {x : EntryParam} (counted : Counted d x) :
    Prog.Ends (forgetEntry x) (fun _ t => Mute d t) e d := by
  obtain ⟨a,named,held⟩ := countedHeld counted
  unfold forgetEntry
  rw [named]
  exact forgetRuns held

theorem saysReaddir {ino : Ref} (stream : List DirEntry) (sofar : List (FileName × EntryParam))
    (known : Known d ino) : Says 1 (Driver.readdirLoop ino stream sofar) e d := by
  induction stream generalizing sofar d with
  | nil => exact saysReply _
  | cons x rest ih =>
    obtain ⟨r,t,ran,mute,kept,counted⟩ := @lookupEnds x.env d ino x.name known
    refine quietStep (show Prog.within x.env (doLookup ino x.name) e d = some (r,t) from ran) mute ?_
    cases r with
    | error err => exact saysReply _
    | ok y =>
      simp only
      split
      · exact ih _ (kept ino known)
      · obtain ⟨_,u,forgot,mute'⟩ := @forgetEntryEnds e t y (counted y rfl)
        exact quietStep forgot mute' (saysReply _)

end Forgets

def beforeUnlink (e : Env Call) (d : State) (parent : Ref) (name : FileName) : Option State :=
  if d.conf.cached then some d
  else match doLookup parent name e d with
    | some (.ok x,t) => (releaseUnlinked x e t).map Prod.snd
    | _ => none

def early (e : Env Call) (d : State) : Req → Nat
  | .rmdir parent name => match d.inode parent with
      | some dir => failed (unlinkAt (.rmdir .fs) dir.fd name true e d.fs).1
      | none => 0
  | .rename parent name newparent newname flags => match d.inode parent,d.inode newparent with
      | some dir,some ndir =>
          if flags then 0 else failed (renameAt (.rename .fs) dir.fd name ndir.fd newname e d.fs).1
      | _,_ => 0
  | .unlink parent name => match d.inode parent,beforeUnlink e d parent name with
      | some dir,some t => failed (unlinkAt (.unlink .fs) dir.fd name false e t.fs).1 +
          failed (unlinkAt (.unlink .id) dir.idFd name false e t.id).1
      | _,_ => 0
  | .setxattr ino name value flag => match d.inode ino with
      | some i => failed (setxattrAt (.setxattr .fs) i.fd name value flag e d.fs).1
      | none => 0
  | .removexattr ino name => match d.inode ino with
      | some i => failed (removexattrAt (.removexattr .fs) i.fd name e d.fs).1 +
          failed (removexattrAt (.removexattr .id) i.idFd name e d.id).1
      | none => 0
  | _ => 0

def Valid (e : Env Call) (d : State) : Req → Prop
  | .lookup parent _ => Known d parent
  | .mknod parent _ _ _ => Known d parent
  | .link ino parent _ => Known d ino ∧ Known d parent
  | .create parent _ _ => Known d parent
  | .rmdir parent _ => Known d parent
  | .rename parent _ newparent _ _ => Known d parent ∧ Known d newparent
  | .unlink parent _ => Known d parent
  | .forget ino n => Held d ino n
  | .forgetMulti forgets => HeldAll e d forgets
  | .readdirplus ino _ => Known d ino
  | .openFile ino _ => Known d ino
  | .release ino _ => Known d ino
  | .writeBuf ino _ _ _ => Known d ino
  | .getattr ino => Known d ino
  | .setattr ino _ _ => Known d ino
  | .setxattr ino _ _ _ => Known d ino
  | .removexattr ino _ => Known d ino

section Requests
variable {e : Env Call} {d : State}

theorem saysMknod {parent : Ref} {name : FileName} {kind : Kind} {link : Bytes}
    (known : Known d parent) : Says 1 (mknodSymlink parent name kind link) e d := by
  refine inodeStep known fun dir _ => plainStep ?_ fun r _ _ => ?_
  · refine plainAndThen (plainSys .fs _) fun _ t kept => ?_
    exact plainAndThen (plainMknodId dir name kind link (kept parent known)) fun _ u kept' =>
      plainLookup name (kept' parent (kept parent known))
  · cases r <;> exact saysReply _

theorem saysLink {ino parent : Ref} {name : FileName} (known : Known d ino) (dir : Known d parent) :
    Says 1 (sfsLink ino parent name) e d := by
  refine inodeStep known fun inode _ => inodeStep dir fun inodeP _ => plainStep ?_ fun r _ _ => ?_
  · exact plainAndThen (plainSys .fs _) fun _ _ _ => plainAndThen (plainSys .id _) fun _ _ _ =>
      plainSys inode.side _
  · cases r with
    | error err => exact saysReply _
    | ok attr => exact setStep (saysReply _)

theorem saysReplyCreate {x : EntryParam} (fh : Handle) (counted : Counted d x) :
    Says 1 (replyCreate x fh) e d := by
  obtain ⟨a,i,named,known,filled,_⟩ := counted
  unfold replyCreate
  rw [named]
  exact inodeStep ⟨i,known,fun _ => filled⟩ fun _ _ => setStep (saysReply _)

theorem saysCreate {parent : Ref} {name : FileName} {flags : Flags} (known : Known d parent) :
    Says 1 (sfsCreate parent name flags) e d := by
  refine inodeStep known fun dir _ => plainStep (plainSys .fs _) fun r t kept => ?_
  cases r with
  | error err => exact saysReply _
  | ok fd =>
    refine plainStep (plainSys .id _) fun r u kept' => ?_
    cases r with
    | error err => exact saysReply _
    | ok idFd =>
      have still := kept' parent (kept parent known)
      refine plainStep (plainChoose name fd idFd still) fun fh v kept'' => ?_
      refine lookupStep (kept'' parent still) fun r w _ _ counted => ?_
      cases r with
      | error err => exact saysReply _
      | ok x => exact saysReplyCreate fh (counted x rfl)

theorem releaseEnds {x : EntryParam} (counted : Counted d x) :
    ∃ t, releaseUnlinked x e d = some ((),t) ∧ Mute d t := by
  obtain ⟨a,i,named,known,filled,_⟩ := counted
  simp only [releaseUnlinked,named,Prog.onlyIf]
  split
  · rw [Prog.bindEq (getInodeEq e known fun _ => filled)]
    split
    · exact ⟨_,rfl,rfl⟩
    · exact ⟨d,rfl,rfl⟩
  · exact ⟨d,rfl,rfl⟩

theorem saysUnlink {parent : Ref} {name : FileName} (known : Known d parent) :
    Says (early e d (.unlink parent name) + 1) (sfsUnlink parent name) e d := by
  refine inodeStep known fun dir here => getStep ?_
  simp only [early,here,beforeUnlink]
  by_cases cached : d.conf.cached = true
  · rw [if_pos cached,if_pos cached,Nat.add_assoc]
    exact saysUnlinkBoth dir name
  · rw [if_neg cached,if_neg cached]
    refine lookupStep known fun r t ran _ counted => ?_
    rw [ran]
    cases r with
    | error err => exact saysReply _
    | ok x =>
      obtain ⟨u,released,mute⟩ := @releaseEnds e t x (counted x rfl)
      simp only [released,Option.map_some,Nat.add_assoc]
      exact quietStep released mute (saysUnlinkBoth dir name)

theorem saysOpen {ino : Ref} {flags : Flags} (known : Known d ino) :
    Says 1 (sfsOpen ino flags) e d := by
  refine inodeStep known fun inode _ => getStep ?_
  refine plainStep (plainOnlyIf (plainDownload ino inode)) fun _ _ _ => ?_
  refine plainStep (plainSys inode.side _) fun r _ _ => ?_
  cases r with
  | error err => exact saysReply _
  | ok fd => exact setStep (saysReply _)

theorem saysRelease {ino : Ref} {fh : Handle} (known : Known d ino) :
    Says 1 (sfsRelease ino fh) e d := by
  refine inodeStep known fun inode _ => getStep ?_
  refine plainStep (plainOnlyIf (plainSys .fs _)) fun _ _ _ => ?_
  refine plainStep (plainOnlyIf (plainBind (plainSys .fs _) fun _ _ _ => plainModify rfl rfl rfl))
    fun _ _ _ => ?_
  exact setStep (sysStep (saysReply _))

theorem saysWrite {ino : Ref} {fh : Handle} {off : Nat} {data : Bytes} (known : Known d ino) :
    Says 1 (sfsWriteBuf ino fh off data) e d := by
  refine inodeStep known fun inode _ => plainStep (plainSys fh.side _) fun r _ _ => ?_
  cases r with
  | error err => exact saysReply _
  | ok res => exact plainStep (plainOnlyIf (plainSet ino fun _ => rfl)) fun _ _ _ => saysReply _

theorem saysGetattr {ino : Ref} (known : Known d ino) : Says 1 (sfsGetattr ino) e d := by
  refine inodeStep known fun inode _ => plainStep (plainSys inode.side _) fun r _ _ => ?_
  cases r <;> exact saysReply _

theorem plainTruncate (inode : Inode) (size : Nat) (fi : Option Handle) :
    Plain (truncateCopy inode size fi) e d := by
  cases fi with
  | none => exact plainSys inode.side _
  | some fh => exact plainSys fh.side _

theorem saysSetattr {ino : Ref} {size : Nat} {fi : Option Handle} (known : Known d ino) :
    Says 1 (sfsSetattr ino size fi) e d := by
  refine inodeStep known fun inode _ => plainStep (plainTruncate inode size fi) fun r t kept => ?_
  cases r with
  | error err => exact saysReply _
  | ok _ => exact saysGetattr (kept ino known)

theorem saysRemovexattr {ino : Ref} {name : Bytes} (known : Known d ino) :
    Says (early e d (.removexattr ino name) + 1) (sfsRemovexattr ino name) e d := by
  refine inodeStep known fun inode here => ?_
  simp only [early,here,Nat.add_assoc]
  refine bothSays fun t kept => firstStep _ fun replies => ?_
  have still : Known {t with replies := replies} ino := keptSame (d := t) rfl rfl ino (kept ino known)
  exact plainStep (plainConvert name still) fun _ _ _ => saysReply _

theorem requestSays {req : Req} (valid : Valid e d req) :
    Says (early e d req + 1) (handle req) e d := by
  cases req with
  | lookup parent name =>
    refine lookupStep valid fun r t _ _ _ => ?_
    split <;> exact saysReply _
  | mknod parent name kind link => exact saysMknod valid
  | link ino parent name => exact saysLink valid.1 valid.2
  | create parent name flags => exact saysCreate valid
  | rmdir parent name =>
    refine inodeStep valid fun dir here => ?_
    simp only [early,here]
    exact bothSays fun _ _ => saysReplyErr _
  | rename parent name newparent newname flags =>
    refine inodeStep valid.1 fun dir here => inodeStep valid.2 fun ndir there => ?_
    simp only [early,here,there]
    split
    · exact saysReply _
    · exact bothSays fun _ _ => saysReplyErr _
  | unlink parent name => exact saysUnlink valid
  | forget ino n => exact forgetStep valid fun _ _ => saysReply _
  | forgetMulti forgets =>
    obtain ⟨_,t,ran,count⟩ := @saysForgetAll e d forgets valid
    refine endsStep ran ⟨(),_,rfl,?_⟩
    simpa [early] using count
  | readdirplus ino stream => exact inodeStep valid fun _ _ => saysReaddir stream [] valid
  | openFile ino flags => exact saysOpen valid
  | release ino fh => exact saysRelease valid
  | writeBuf ino fh off data => exact saysWrite valid
  | getattr ino => exact saysGetattr valid
  | setattr ino size fi => exact saysSetattr valid
  | setxattr ino name value flag =>
    refine inodeStep valid fun inode here => ?_
    simp only [early,here]
    exact bothSays fun _ _ => saysReplyErr _
  | removexattr ino name => exact saysRemovexattr valid

end Requests

def Tells (n : Nat) (p : Serve α) (out : Outside) (d : Desk) : Prop :=
  Prog.Ends p (fun _ t => t.count = d.count + n) out d

def Silent (p : Serve α) (out : Outside) (d : Desk) : Prop :=
  Prog.Ends p (fun _ t => t.count = d.count ∧ Kept d.driver t.driver) out d

section Desk
variable {n : Nat} {out : Outside} {d : Desk}

theorem coreEnds {p : Handler α} {post : α → State → Prop}
    (ends : Prog.Ends p post out.calls d.driver) :
    Prog.Ends (core p) (fun a t => post a t.driver ∧ t.answers = d.answers) out d := by
  obtain ⟨a,t,ran,met⟩ := ends
  exact ⟨a,{d with driver := t},by simp [core,ran],met,rfl⟩

theorem tellsCore {p : Handler α} (ends : Says n p out.calls d.driver) : Tells n (core p) out d := by
  refine endsWeaken (coreEnds ends) ?_
  rintro _ t ⟨count,same⟩
  simp only [Desk.count,count,same]
  omega

theorem tellsAnswer (a : Answer) : Tells 1 (answer a) out d :=
  ⟨(),_,rfl,by simp only [Desk.count,List.length_append,List.length_singleton]; omega⟩

theorem silentCore {p : Handler α} (plain : Plain p out.calls d.driver) : Silent (core p) out d := by
  refine endsWeaken (coreEnds plain) ?_
  rintro _ t ⟨⟨mute,kept⟩,same⟩
  exact ⟨by rw [Desk.count,Desk.count,show t.driver.replies = d.driver.replies from mute,same],kept⟩

theorem coreStep {p : Handler α} {f : α → Serve β} {a t} (ran : p out.calls d.driver = some (a,t))
    (mute : Mute d.driver t) (rest : Tells n (f a) out {d with driver := t}) :
    Tells n (core p >>= f) out d := by
  have first : core p out d = some (a,{d with driver := t}) := by simp [core,ran]
  have same : ({d with driver := t} : Desk).count = d.count := by
    rw [Desk.count,Desk.count,show t.replies = d.driver.replies from mute]
  exact endsStep first (endsWeaken rest fun _ _ count => same ▸ count)

theorem silentCall (s : Site) (side : Side) (f : Mount Call → Except Errno (α × Mount Call)) :
    Silent (call s side f) out d := by
  unfold Silent Prog.Ends call
  split
  · exact ⟨_,d,rfl,rfl,fun _ known => known⟩
  · split
    · refine ⟨_,_,rfl,?_,keptMount d.driver side _⟩
      cases side <;> rfl
    · exact ⟨_,d,rfl,rfl,fun _ known => known⟩

theorem silentPure (a : α) : Silent (pure a : Serve α) out d := ⟨a,d,rfl,rfl,fun _ known => known⟩

theorem silentStep {p : Serve α} {f : α → Serve β} (silent : Silent p out d)
    (rest : ∀ a t, Kept d.driver t.driver → Tells n (f a) out t) : Tells n (p >>= f) out d := by
  obtain ⟨a,t,first,same,kept⟩ := silent
  exact endsStep first (endsWeaken (rest a t kept) fun _ _ count => same ▸ count)

theorem silentAndThen {p : Serve (Except Errno α)} {f : α → Serve (Except Errno β)}
    (first : Silent p out d) (rest : ∀ a t, Silent (f a) out t) : Silent (andThen p f) out d := by
  obtain ⟨r,t,ran,same,kept⟩ := first
  refine endsStep ran ?_
  cases r with
  | error err => exact ⟨_,t,rfl,same,kept⟩
  | ok a =>
    refine endsWeaken (rest a t) ?_
    rintro _ u ⟨count,kept'⟩
    exact ⟨count.trans same,keptTrans kept kept'⟩

theorem silentOnce (c : Bool) (s : Site) : Silent (onlyOnce c (attempt s)) out d := by
  unfold onlyOnce
  split
  · exact silentCall s .fs _
  · exact silentPure _

theorem tellsFail (err : Errno) : Tells 1 (fail err) out d := tellsCore (saysReply _)

theorem tellsResult (r : Except Errno α) : Tells 1 (core (replyErr r)) out d :=
  tellsCore (saysReplyErr r)

theorem tellsHandle (s : Site) (side : Side) (fd : Slot) : Tells 1 (onHandle s side fd) out d :=
  silentStep (silentCall s side _) fun _ _ _ => tellsResult _

theorem tellsCollected (err : Option Errno) (sofar : List (FileName × EntryParam)) :
    Tells 1 (core (replyCollected err sofar)) out d := by
  refine tellsCore ?_
  cases err <;> exact saysReply _

theorem tellsReaddirLoop {ino : Ref} (plus : Bool) (stream : List Dirent)
    (sofar : List (FileName × EntryParam)) (known : Known d.driver ino) :
    Tells 1 (readdirLoop ino plus stream sofar) out d := by
  induction stream generalizing sofar d with
  | nil =>
    refine silentStep (silentCall .readdir .fs _) fun r _ _ => ?_
    cases r <;> exact tellsCollected _ _
  | cons x rest ih =>
    cases x with
    | dots => exact ih sofar known
    | entry x attrIno kind =>
      unfold readdirLoop
      split
      · obtain ⟨r,t,ran,mute,kept,counted⟩ := @lookupEnds x.env d.driver ino x.name known
        refine coreStep (show Prog.within x.env (doLookup ino x.name) out.calls d.driver =
          some (r,t) from ran) mute ?_
        cases r with
        | error err => exact tellsCollected _ _
        | ok y =>
          simp only
          split
          · exact ih _ (kept ino known)
          · obtain ⟨_,u,forgot,mute'⟩ := @forgetEntryEnds out.calls t y (counted y rfl)
            exact coreStep forgot mute' (tellsCollected _ _)
      · split
        · exact ih _ known
        · exact tellsCollected _ _

theorem tellsReaddir {ino : Ref} (plus : Bool) (stream : List Dirent) (known : Known d.driver ino) :
    Tells 1 (doReaddir ino plus stream) out d := by
  refine silentStep (silentCore (plainInode known)) fun _ t kept => ?_
  refine silentStep (silentCall .newBuffer .fs _) fun r u kept' => ?_
  cases r with
  | error err => exact tellsFail _
  | ok _ => exact tellsReaddirLoop plus stream [] (kept' ino (kept ino known))

theorem tellsReadlink {ino : Ref} (known : Known d.driver ino) : Tells 1 (sfsReadlink ino) out d := by
  refine silentStep (silentCore (plainInode known)) fun inode _ _ => ?_
  refine silentStep (silentCall .readlink inode.side _) fun r _ _ => ?_
  cases r with
  | error err => exact tellsFail _
  | ok target =>
    simp only
    split
    · exact tellsFail _
    · exact tellsAnswer _

theorem tellsOpendir {ino : Ref} (known : Known d.driver ino) : Tells 1 (sfsOpendir ino) out d := by
  refine silentStep (silentCore (plainInode known)) fun inode _ _ => ?_
  refine silentStep (silentCall .newHandle .fs _) fun r _ _ => ?_
  cases r with
  | error err => exact tellsFail _
  | ok _ =>
    have opens : ∀ t, Silent (andThen (call .openDir inode.side (fun m => m.openDot inode.slot))
        fun fd => andThen (attempt .fdopendir) fun _ => pure (.ok fd)) out t :=
      fun t => silentAndThen (silentCall .openDir inode.side _) fun fd _ =>
        silentAndThen (silentCall .fdopendir .fs _) fun _ _ => silentPure _
    refine silentStep (opens _) fun r _ _ => ?_
    cases r with
    | error err => exact tellsFail _
    | ok fd => exact tellsAnswer _

theorem tellsRead {ino : Ref} (size off : Nat) (fh : Handle) (known : Known d.driver ino) :
    Tells 1 (sfsRead ino size off fh) out d := by
  refine silentStep (silentCore (plainInode known)) fun inode t _ => ?_
  refine silentStep ⟨(),_,rfl,rfl,fun _ known => known⟩ fun _ _ _ => ?_
  refine silentStep (silentCall .readData fh.side _) fun r _ _ => ?_
  cases r with
  | error err => exact tellsFail _
  | ok bytes => exact tellsAnswer _

theorem tellsValue (s : Site) (side : Side) (read : Mount Call → Except Errno (Bytes × Mount Call))
    (size : Nat) : Tells 1 (replyValue s side read size) out d := by
  unfold replyValue
  split
  · refine silentStep (silentCall .newValue .fs _) fun r _ _ => ?_
    cases r with
    | error err => exact tellsFail _
    | ok _ =>
      refine silentStep (silentCall s side _) fun r _ _ => ?_
      cases r with
      | error err => exact tellsFail _
      | ok value =>
        simp only
        split
        · exact tellsCore (saysReply _)
        · exact tellsAnswer _
  · refine silentStep (silentCall s side _) fun r _ _ => ?_
    cases r with
    | error err => exact tellsFail _
    | ok value => exact tellsAnswer _

theorem tellsFallocate (mode offset length : Nat) (fh : Handle) :
    Tells 1 (sfsFallocate mode offset length fh) out d := by
  unfold sfsFallocate
  split
  · exact tellsFail _
  · exact silentStep (silentCall .fallocate fh.side _) fun _ _ _ => tellsResult _

theorem tellsSetattr {ino : Ref} (valid : SetAttr) (fi : Option Handle) (known : Known d.driver ino) :
    Tells 1 (doSetattr ino valid fi) out d := by
  refine silentStep (silentCore (plainInode known)) fun inode t kept => ?_
  refine silentStep ?sets fun r u kept' => ?tells
  case sets =>
    refine silentAndThen (silentOnce _ _) fun _ _ => silentAndThen (silentOnce _ _) fun _ _ => ?_
    refine silentAndThen ?_ fun _ _ => silentOnce _ _
    split
    · exact silentCore (plainTruncate inode _ fi)
    · exact silentPure _
  case tells =>
    cases r with
    | error err => exact tellsFail _
    | ok _ => exact tellsCore (saysGetattr (kept' ino (kept ino known)))

end Desk

def ValidOp (out : Outside) (d : State) : Op → Prop
  | .request req => Valid out.calls d req
  | .setattr ino _ _ => Known d ino
  | .readlink ino => Known d ino
  | .opendir ino => Known d ino
  | .readdir ino _ => Known d ino
  | .readdirplus ino _ => Known d ino
  | .read ino _ _ _ => Known d ino
  | .statfs ino => Known d ino
  | .getxattr ino _ _ => Known d ino
  | .listxattr ino _ => Known d ino
  | _ => True

def earlyOp (out : Outside) (d : State) : Op → Nat
  | .request req => early out.calls d req
  | _ => 0

/- No call fails whose error is replied before the handler goes on: of rmdir, rename and
setxattr the one on the shared tree, of unlink and removexattr both. -/
def NoneEarly (out : Outside) (d : State) (op : Op) : Prop := earlyOp out d op = 0
instance (out d op) : Decidable (NoneEarly out d op) := by unfold NoneEarly; infer_instance

theorem served {out : Outside} {d : Desk} {op : Op} (valid : ValidOp out d.driver op) :
    Tells (earlyOp out d.driver op + 1) (serve op) out d := by
  cases op with
  | request req => exact tellsCore (requestSays valid)
  | setattr ino valid' fi => exact tellsSetattr valid' fi valid
  | readlink ino => exact tellsReadlink valid
  | opendir ino => exact tellsOpendir valid
  | readdir ino stream => exact tellsReaddir false stream valid
  | readdirplus ino stream => exact tellsReaddir true stream valid
  | releasedir dh => exact silentStep (silentCore (plainSys dh.side _)) fun _ _ _ => tellsCore (saysReply _)
  | fsyncdir dh => exact tellsHandle .fsyncdir dh.side dh.fd
  | flush fh => exact tellsHandle .flush fh.side fh.fd
  | fsync fh => exact tellsHandle .fsync fh.side fh.fd
  | read ino size off fh => exact tellsRead size off fh valid
  | statfs ino =>
    refine silentStep (silentCore (plainInode valid)) fun inode _ _ => ?_
    refine silentStep (silentCall .statfs .fs _) fun r _ _ => ?_
    cases r with
    | error err => exact tellsFail _
    | ok _ => exact tellsAnswer _
  | fallocate mode offset length fh => exact tellsFallocate mode offset length fh
  | flock fh => exact tellsHandle .flock fh.side fh.fd
  | getxattr ino name size =>
    exact silentStep (silentCore (plainInode valid)) fun inode _ _ => tellsValue .getxattr inode.side _ size
  | listxattr ino size =>
    refine silentStep (silentCore (plainInode valid)) fun inode t _ => ?_
    exact tellsValue .listxattr inode.side (fun m => attrFile m inode.slot >>= fun _ => .ok (out.attrs,m))
      size

theorem oneReply {out : Outside} {d : State} {op : Op} (valid : ValidOp out (opened d).driver op) :
    ∃ t, serve op out (opened d) = some ((),t) ∧
      (t.count = 1 ↔ NoneEarly out (opened d).driver op) := by
  obtain ⟨_,t,ran,count⟩ := @served out (opened d) op valid
  refine ⟨t,ran,?_⟩
  rw [count,show (opened d).count = 0 from rfl,Nat.zero_add,NoneEarly]
  omega

def quiet : Outside := ⟨calm 3,fun _ => none,fun _ => 0,[]⟩

def withDir : State := ((handle (.mknod .root nameA .dir []) (calm 3) (mounted true)).map Prod.snd).getD
  (mounted true)

theorem rmdirOnce : ∃ t, serve (.request (.rmdir .root nameA)) quiet (opened withDir) = some ((),t) ∧
    t.count = 1 := by
  obtain ⟨t,ran,one⟩ := @oneReply quiet withDir (.request (.rmdir .root nameA))
    ⟨_,rfl,fun ne => absurd rfl ne⟩
  exact ⟨t,ran,one.mpr (by decide +kernel)⟩

theorem rmdirTwice : ∃ t, serve (.request (.rmdir .root nameA)) quiet (opened (mounted true)) =
    some ((),t) ∧ t.driver.replies = [.err (some .enoent),.err (some .enoent)] := by
  refine ⟨_,rfl,?_⟩
  decide +kernel

end F3.Driver.Service
