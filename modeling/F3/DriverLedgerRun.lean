import F3.DriverLedger

/-! The requests that hand references out and take them back, each with the count it
leaves, and runs of them. -/
namespace F3.Driver.Ledger
open Lib (Bytes Arena Cell Prog)
open Lib.Prog (bindSome bindEq)
open Lib.Posix
open Lib.Run (run Meets)
open Service (Known Valid)

section Requests
variable {e : Env Call} {d t : State} {held : Nat → Nat}

theorem sysFsKin {α : Type} (p : Sys Call α) : Prog.Keeps Kin (sys .fs p) := by
  intro e d a d' ok
  rw [(sysSome ok).2]
  exact ⟨rfl,rfl,rfl,refl_of (Held d.id.next) d.id⟩

theorem sysIdKin {α : Type} {p : Sys Call α} (dev : ∀ e m, (p e m).2.vol.dev = m.vol.dev)
    (held : ∀ e m, Held m.next m (p e m).2) : Prog.Keeps Kin (sys .id p) := by
  intro e d a d' ok
  rw [(sysSome ok).2]
  exact ⟨rfl,rfl,dev e d.id,held e d.id⟩

theorem replyKin (r : Reply) : Prog.Keeps Kin (reply r) :=
  Prog.keepsModify fun d => ⟨rfl,rfl,rfl,refl_of (Held d.id.next) d.id⟩

theorem aroundKin {b : Fd} (around : Around b d.id.next d t) : Kin d t :=
  ⟨around.inodes,around.conf,around.idDev,around.heldId (Nat.le_refl _)⟩

theorem createKin (c : Call) (dir : Slot) (name : FileName) (flags : Flags) :
    Prog.Keeps Kin (sys .id (openCreate c dir name flags)) :=
  sysIdKin (fun e m => (openCreateGrows c dir name flags e m).dev)
    (fun e m => openCreateHeld c dir name flags e m)

theorem linkKin (c : Call) (slot dir : Slot) (name : FileName) :
    Prog.Keeps Kin (sys .id (linkAt c slot dir name)) := by
  refine sysIdKin (fun e m => ?_) fun e m => ?_ <;>
    rcases linkAtCases c slot dir name e m with ⟨_,same⟩ | ⟨_,_,_,v,_,_,linked,same⟩ <;> rw [same]
  · exact linkDev linked
  · exact refl_of (Held m.next) m
  · exact sameHeld rfl rfl

theorem unlinkKin (c : Call) (dir : Slot) (name : FileName) (rmdir : Bool) :
    Prog.Keeps Kin (sys .id (unlinkAt c dir name rmdir)) := by
  refine sysIdKin (fun e m => ?_) fun e m => ?_ <;>
    rcases unlinkAtCases c dir name rmdir e m with ⟨_,same⟩ | ⟨_,_,v,_,removed,same⟩ <;> rw [same]
  · exact removeDev removed
  · exact refl_of (Held m.next) m
  · exact sameHeld rfl rfl

def Settled (held : Nat → Nat) (t : State) : Prop := Balance t (fun a => held a + delivered a t.replies)

theorem settle {r : Reply} (bal : Balance d (fun a => held a + named a r)) (fresh : d.replies = [])
    (ran : reply r e d = some ((),t)) : Settled held t := by
  have after := balanceKin bal (replyKin r e d () t ran)
  rw [Settled,replySome ran,fresh]
  rwa [replySome ran,fresh] at after

theorem settleNone {r : Reply} (bal : Balance d held) (none : ∀ a, named a r = 0) (fresh : d.replies = [])
    (ran : reply r e d = some ((),t)) : Settled held t := by
  refine settle (r := r) ?_ fresh ran
  simpa only [none,Nat.add_zero] using bal

theorem lookupSettled {parent : Ref} {name : FileName} (bal : Balance d held) (fresh : d.replies = [])
    (good : LookGood e d parent name) (ran : sfsLookup parent name e d = some ((),t)) :
    Settled held t := by
  obtain ⟨r,u,lookup,last⟩ := bindSome ran
  have fresh : u.replies = [] := (Service.lookupMute parent name e d r u lookup).trans fresh
  rcases lookupBalance bal good lookup with ⟨⟨err,rfl⟩,after⟩ | ⟨x,rfl,after⟩
  · cases err <;> exact settleNone after (fun _ => rfl) fresh last
  · exact settle after fresh last

theorem linkSettled {ino parent : Ref} {name : FileName} (bal : Balance d held) (fresh : d.replies = [])
    (refers : Refers held ino) (ran : sfsLink ino parent name e d = some ((),t)) : Settled held t := by
  obtain ⟨i,d0,first,body⟩ := bindSome ran
  obtain ⟨rfl,known,_⟩ := getInodeSome first
  obtain ⟨dir,d1,second,rest⟩ := bindSome body
  obtain ⟨rfl,_,_⟩ := getInodeSome second
  obtain ⟨made,u,calls,last⟩ := bindSome rest
  have kin : Kin d1 u := by
    refine keepsAndThen (sysFsKin _) (fun _ => keepsAndThen (linkKin _ _ _ _) fun _ => ?_) e d1 made u calls
    cases i.side with
    | fs => exact sysFsKin _
    | id => exact sysIdKin (fun e m => by rw [fstatState]) fun e m => fstatHeld _ _ e m
  have mute : Service.Mute d1 u := keepsAndThen (Service.sysMute _ _)
    (fun _ => keepsAndThen (Service.sysMute _ _) fun _ => Service.sysMute _ _) e d1 made u calls
  have fresh : u.replies = [] := Eq.trans mute fresh
  have after := balanceKin bal kin
  cases made with
  | error err => exact settleNone after (fun _ => rfl) fresh last
  | ok st =>
    obtain ⟨_,v,counted,replied⟩ := bindSome last
    cases Option.some.inj counted
    cases ino with
    | root =>
      have rooted : Balance (u.setInode .root (fun i => {i with nlookup := i.nlookup + 1})) held :=
        balanceKin after ⟨rfl,rfl,rfl,refl_of (Held u.id.next) u.id⟩
      exact settleNone rooted (fun _ => by simp [named,one]) fresh replied
    | node a =>
      obtain ⟨c,mem,rfl,_,live,counted⟩ := cellHeld after refers
      let count : Inode → Inode := fun i => {i with nlookup := i.nlookup + 1}
      refine settle (d := u.setInode (.node c.addr) count) ?_ fresh replied
      refine balanceModify after mem rfl rfl rfl (refl_of (Held u.id.next) u.id) ?_ ?_ live ?_
        fun isId => ⟨isId,rfl⟩
      · simp [named,one,count,counted]
      · intro b other
        simp [named,one,Ne.symm other]
      · exact Arena.allModify (fun b old _ => after.filed b old) fun b old _ => after.filed b old

def Errs (d d' : State) : Prop := ∃ l : List (Option Errno), d'.replies = d.replies ++ l.map Reply.err

instance : IsPreorder State Errs where
  refl d := ⟨[],by simp⟩
  trans _ _ _ := by
    rintro ⟨l,one⟩ ⟨k,two⟩
    exact ⟨l ++ k,by simp [one,two]⟩

theorem replyErrs (x : Option Errno) : Prog.Keeps Errs (reply (.err x)) :=
  Prog.keepsModify fun _ => ⟨[x],rfl⟩

theorem sysErrs {α : Type} (side : Side) (p : Sys Call α) : Prog.Keeps Errs (sys side p) := by
  intro e d a d' ok
  exact ⟨[],by rw [Service.sysMute side p e d a d' ok]; simp⟩

theorem unlinkBothKin (dir : Inode) (name : FileName) : Prog.Keeps Kin (unlinkBoth dir name) :=
  unlinkBothKeeps (sysFsKin _) (unlinkKin _ _ _ _) fun _ => replyKin _

theorem unlinkBothErrs (dir : Inode) (name : FileName) : Prog.Keeps Errs (unlinkBoth dir name) :=
  unlinkBothKeeps (sysErrs _ _) (sysErrs _ _) replyErrs

theorem settleErrs (bal : Balance t held) (fresh : d.replies = []) (errs : Errs d t) : Settled held t := by
  obtain ⟨l,replies⟩ := errs
  have none : ∀ a, delivered a t.replies = 0 := by
    intro a
    rw [replies,fresh]
    cases l <;> rfl
  simpa only [Settled,none,Nat.add_zero] using bal

theorem missedKin {parent : Ref} {name : FileName} {dir r} (up : d.inode parent = some dir)
    (nothing : resolve e d.fs d.conf.srcDev dir name = none)
    (ok : doLookup parent name e d = some (r,t)) : (∃ err, r = .error err) ∧ Kin d t := by
  have looks := doLookupLooks parent name e d r t ok
  cases looked ok with
  | missed _ _ failed table => exact ⟨failed,table,looks.conf,looks.id.dev,lookupHeldId ok⟩
  | known up' found =>
    cases up.symm.trans up'
    cases nothing.symm.trans found
  | built up' found =>
    cases up.symm.trans up'
    cases nothing.symm.trans found

theorem unlinkSettled {parent : Ref} {name : FileName} (bal : Balance d held) (fresh : d.replies = [])
    (good : d.conf.cached = true ∨ ∀ dir, d.inode parent = some dir →
      resolve e d.fs d.conf.srcDev dir name = none)
    (ran : sfsUnlink parent name e d = some ((),t)) : Settled held t := by
  obtain ⟨dir,d0,first,rest⟩ := bindSome ran
  obtain ⟨rfl,known,_⟩ := getInodeSome first
  obtain ⟨d1,d2,got,body⟩ := bindSome rest
  cases Option.some.inj got
  split at body
  · exact settleErrs (balanceKin bal (unlinkBothKin dir name e _ _ t body)) fresh
      (unlinkBothErrs dir name e _ _ t body)
  · rename_i uncached
    obtain ⟨r,u,lookup,last⟩ := bindSome body
    obtain ⟨⟨err,rfl⟩,kin⟩ := missedKin known (good.resolve_left uncached dir known) lookup
    have fresh : u.replies = [] := (Service.lookupMute parent name e _ _ u lookup).trans fresh
    exact settleNone (balanceKin bal kin) (fun _ => rfl) fresh last

def NewGood (e : Env Call) (d : State) (parent : Ref) (name : FileName) : Prop :=
  e.fault .lookupStatId = none ∧ (Keys.plainNew d parent name = true ∨ CopyCalm e)

theorem createGood {parent : Ref} {name : FileName} {flags : Flags} {dir fd idFd m n fh}
    (good : NewGood e d parent name) (known : d.inode parent = some dir)
    (opened : openCreate (.create .fs) dir.fd name flags e d.fs = (.ok fd,m))
    (openedId : openCreate (.create .id) dir.idFd name flags e d.id = (.ok idFd,n))
    (chosen : chooseCopy parent name fd idFd e {d with fs := m, id := n} = some (fh,t)) :
    Kin d t ∧ LookGood e t parent name := by
  obtain ⟨_,_,reached,room⟩ := createReached known opened openedId chosen
  refine ⟨⟨reached.inodes,reached.conf,reached.idDev,reached.heldId⟩,good.1,fun dir' known' isNew => ?_⟩
  cases reached.known.symm.trans known'
  refine ⟨good.2.resolve_left fun plain => ?_,room⟩
  have isNew0 : isNewId d.fs dir name = false := by simpa [Keys.plainNew,known] using plain
  rw [reached.plain isNew0] at isNew
  cases isNew

theorem replyCreateSettled {x : EntryParam} {fh : Handle} (bal : Balance d (fun a => held a + one x a))
    (fresh : d.replies = []) (ran : replyCreate x fh e d = some ((),t)) : Settled held t := by
  unfold replyCreate at ran
  cases ino : x.ino with
  | none => simp [ino,Prog.abort] at ran
  | some addr =>
    simp only [ino] at ran
    obtain ⟨i,u,first,rest⟩ := bindSome ran
    obtain ⟨rfl,_⟩ := getInodeSome first
    obtain ⟨_,v,counted,last⟩ := bindSome rest
    cases Option.some.inj counted
    obtain ⟨c,mem,rfl,_,live,count⟩ := cellHeld bal (a := addr) (by simp [one,ino])
    let open_ : Inode → Inode := fun i => {i with nopen := i.nopen + 1}
    refine settle (d := u.setInode (.node c.addr) open_) ?_ fresh last
    refine balanceModify bal mem rfl rfl rfl (refl_of (Held u.id.next) u.id) count (fun _ _ => rfl) live ?_
      fun isId => ⟨isId,rfl⟩
    exact Arena.allModify (fun b old _ => bal.filed b old) fun b old _ => bal.filed b old

theorem createSettled {parent : Ref} {name : FileName} {flags : Flags} (bal : Balance d held)
    (known : Known d parent) (fresh : d.replies = []) (good : NewGood e d parent name)
    (ran : sfsCreate parent name flags e d = some ((),t)) : Settled held t := by
  obtain ⟨dir,up,filled⟩ := known
  unfold sfsCreate at ran
  rw [bindEq (getInodeEq e up filled)] at ran
  obtain ⟨r,d1,call,rest⟩ := bindSome ran
  have kin1 := sysFsKin _ e d r d1 call
  obtain ⟨isR,rfl⟩ := sysSome call
  cases r with
  | error err => exact settleNone (balanceKin bal kin1) (fun _ => rfl) fresh rest
  | ok fd =>
    obtain ⟨r,d2,callId,body⟩ := bindSome rest
    have kin2 := createKin _ _ _ _ e _ r d2 callId
    obtain ⟨isR2,rfl⟩ := sysSome callId
    cases r with
    | error err => exact settleNone (balanceKin bal (trans_of Kin kin1 kin2)) (fun _ => rfl) fresh body
    | ok idFd =>
      obtain ⟨fh,d3,chosen,tail⟩ := bindSome body
      obtain ⟨r,d4,lookup,last⟩ := bindSome tail
      obtain ⟨kin,look⟩ := createGood good up (Prod.ext isR.symm rfl) (Prod.ext isR2.symm rfl) chosen
      have still : Known ((d.setMount .fs (openCreate (.create .fs) dir.fd name flags e d.fs).2).setMount .id
          (openCreate (.create .id) dir.idFd name flags e d.id).2) parent :=
        ⟨dir,by rw [setMountInode,setMountInode]; exact up,filled⟩
      have fresh : d4.replies = [] := (Service.lookupMute parent name e d3 r d4 lookup).trans
        ((Service.plainRan (Service.plainChoose name fd idFd still) chosen).1.trans fresh)
      rcases lookupBalance (balanceKin bal kin) look lookup with ⟨⟨err,rfl⟩,after⟩ | ⟨x,rfl,after⟩
      · exact settleNone after (fun _ => rfl) fresh last
      · exact replyCreateSettled after fresh last

theorem mknodIdKin (parent : Ref) (dir : Inode) (name : FileName) (kind : Kind) (link : Bytes) :
    Prog.Keeps Kin (mknodId parent dir name kind link) := by
  have both : kind = .dir ∨ kind = .lnk → Prog.Keeps Kin (mknodId parent dir name kind link) := by
    intro two e d r t ran
    obtain ⟨_,n,made,rfl,⟨_,rfl⟩ | ⟨rfl,around⟩⟩ := mknodIdMade two ran
    · exact refl_of Kin t
    · obtain ⟨_,_,id⟩ := makeEntered made
      have first : Kin d {d with id := n} := ⟨rfl,rfl,id.dev,id.held⟩
      exact trans_of Kin first (aroundKin (around 0 n.next))
  cases kind with
  | dir => exact both (.inl rfl)
  | lnk => exact both (.inr rfl)
  | reg => exact Prog.keepsPure _
  | special => exact Prog.keepsPure _

theorem mknodGood {parent : Ref} {name : FileName} {kind : Kind} {link : Bytes} {dir m}
    (good : NewGood e d parent name)
    (room : kind = .dir ∨ kind = .lnk ∨ Copyable e d.id dir.idFd name) (known : d.inode parent = some dir)
    (made : makeAt (.mknod .fs) dir.fd name kind link e d.fs = (.ok (),m))
    (copied : mknodId parent dir name kind link e {d with fs := m} = some (.ok (),t)) :
    LookGood e t parent name := by
  obtain ⟨reached,copyable⟩ := mknodReached known made copied
  refine ⟨good.1,fun dir' known' isNew => ?_⟩
  cases reached.known.symm.trans known'
  refine ⟨good.2.resolve_left fun plain => ?_,copyable room⟩
  have isNew0 : isNewId d.fs dir name = false := by simpa [Keys.plainNew,known] using plain
  rw [reached.plain isNew0] at isNew
  cases isNew

theorem mknodSettled {parent : Ref} {name : FileName} {kind : Kind} {link : Bytes} (bal : Balance d held)
    (known : Known d parent) (fresh : d.replies = []) (good : NewGood e d parent name)
    (room : ∀ dir, d.inode parent = some dir → kind = .dir ∨ kind = .lnk ∨ Copyable e d.id dir.idFd name)
    (ran : mknodSymlink parent name kind link e d = some ((),t)) : Settled held t := by
  obtain ⟨dir,up,filled⟩ := known
  unfold mknodSymlink at ran
  rw [bindEq (getInodeEq e up filled)] at ran
  obtain ⟨r,u,calls,last⟩ := bindSome ran
  obtain ⟨made,d1,call,rest⟩ := bindSome calls
  have kin1 := sysFsKin _ e d made d1 call
  obtain ⟨isMade,rfl⟩ := sysSome call
  cases made with
  | error err =>
    obtain ⟨rfl,rfl⟩ := Prog.pureSome rest
    exact settleNone (balanceKin bal kin1) (fun _ => rfl) fresh last
  | ok _ =>
    obtain ⟨copied,d2,copies,body⟩ := bindSome rest
    have kin2 := trans_of Kin kin1 (mknodIdKin _ _ _ _ _ e _ copied d2 copies)
    have still : Known (d.setMount .fs (makeAt (.mknod .fs) dir.fd name kind link e d.fs).2) parent :=
      ⟨dir,by rw [setMountInode]; exact up,filled⟩
    have mute := (Service.plainRan (Service.plainMknodId dir name kind link still) copies).1
    cases copied with
    | error err =>
      obtain ⟨rfl,rfl⟩ := Prog.pureSome body
      exact settleNone (balanceKin bal kin2) (fun _ => rfl) (mute.trans fresh) last
    | ok _ =>
      have look := mknodGood good (room dir up) up (Prod.ext isMade.symm rfl) copies
      have fresh : u.replies = [] := (Service.lookupMute parent name e d2 r u body).trans (mute.trans fresh)
      rcases lookupBalance (balanceKin bal kin2) look body with ⟨⟨err,rfl⟩,after⟩ | ⟨x,rfl,after⟩
      · exact settleNone after (fun _ => rfl) fresh last
      · exact settle after fresh last

def ReadGood (ino : Ref) : State → List DirEntry → Prop
  | _,[] => True
  | d,x::rest => LookGood x.env d ino x.name ∧
      match doLookup ino x.name x.env d with
      | some (.ok _,t) => x.fits = true → ReadGood ino t rest
      | _ => True

theorem forgetEntrySettles {x : EntryParam} (bal : Balance d (fun a => held a + one x a))
    (ran : forgetEntry x e d = some ((),t)) : Balance t held ∧ t.replies = d.replies := by
  unfold forgetEntry at ran
  cases ino : x.ino with
  | none => simp [ino,Prog.abort] at ran
  | some addr =>
    simp only [ino] at ran
    have here : 0 < held addr + one x addr := by simp [one,ino]
    have after := forgetBalance bal here ran
    have same : (fun b => held b + one x b - if b = addr then 1 else 0) = held := by
      funext b
      simp [one,ino,eq_comm]
    rw [same] at after
    obtain ⟨_,_,again,mute⟩ := Service.forgetRuns (e := e) (heldValid bal here (by simp [one,ino]) (n := 1))
    cases again.symm.trans ran
    exact ⟨after,mute⟩

theorem entriesSettled {sofar : List (FileName × EntryParam)}
    (bal : Balance d (fun a => held a + sofar.countP (fun x => x.2.ino = some a))) (fresh : d.replies = [])
    (ran : reply (.entries sofar.reverse) e d = some ((),t)) : Settled held t := by
  refine settle ?_ fresh ran
  simpa only [named,List.countP_reverse] using bal

theorem readdirSettled {ino : Ref} {stream : List DirEntry} {sofar : List (FileName × EntryParam)}
    (bal : Balance d (fun a => held a + sofar.countP (fun x => x.2.ino = some a))) (fresh : d.replies = [])
    (good : ReadGood ino d stream) (ran : readdirLoop ino stream sofar e d = some ((),t)) :
    Settled held t := by
  induction stream generalizing d sofar with
  | nil => exact entriesSettled bal fresh ran
  | cons x rest ih =>
    obtain ⟨r,u,looked,body⟩ := bindSome ran
    have lookup : doLookup ino x.name x.env d = some (r,u) := looked
    have fresh : u.replies = [] := (Service.lookupMute ino x.name x.env d r u lookup).trans fresh
    rcases lookupBalance bal good.1 lookup with ⟨⟨err,rfl⟩,after⟩ | ⟨y,rfl,after⟩
    · simp only at body
      split at body
      · rename_i none
        subst none
        exact settleNone after (fun _ => rfl) fresh body
      · exact entriesSettled after fresh body
    · simp only at body
      split at body
      · rename_i fits
        have good := good.2
        simp only [lookup] at good
        have more : Balance u (fun a =>
            held a + ((x.name,y)::sofar).countP (fun x => x.2.ino = some a)) := by
          simpa only [List.countP_cons,one,decide_eq_true_eq,Nat.add_assoc] using after
        exact ih more fresh (good fits) body
      · obtain ⟨_,v,forgot,last⟩ := bindSome body
        obtain ⟨settled,mute⟩ := forgetEntrySettles after forgot
        exact entriesSettled settled (mute.trans fresh) last

end Requests

theorem forgetSettled {e : Env Call} {d t : State} {held : Nat → Nat} {forgets : List (Ref × Nat)}
    (bal : Balance d held) (fresh : d.replies = []) (returns : Returns held forgets)
    (ran : sfsForgetMulti forgets e d = some ((),t)) :
    Balance t (fun a => held a + delivered a t.replies - returned a forgets) := by
  obtain ⟨_,u,forgot,last⟩ := bindSome ran
  have mute : u.replies = [] := by
    obtain ⟨_,_,again,count⟩ := Service.saysForgetAll (heldAllValid (e := e) bal returns)
    cases again.symm.trans forgot
    simpa [fresh] using count
  have after := balanceKin (forgetAllBalance bal returns forgot) (replyKin _ e u _ t last)
  have none : ∀ a, delivered a t.replies = 0 := by
    intro a
    rw [replySome last,mute]
    rfl
  simpa only [none,Nat.add_zero] using after

def Balanced (e : Env Call) (d : State) : Req → Prop
  | .lookup parent name => LookGood e d parent name
  | .create parent name _ => NewGood e d parent name
  | .mknod parent name kind _ => NewGood e d parent name ∧ ∀ dir, d.inode parent = some dir →
      kind = .dir ∨ kind = .lnk ∨ Copyable e d.id dir.idFd name
  | .unlink parent name => d.conf.cached = true ∨ ∀ dir, d.inode parent = some dir →
      resolve e d.fs d.conf.srcDev dir name = none
  | .readdirplus ino stream => ReadGood ino d stream
  | _ => True

theorem requestSettled {e : Env Call} {d t : State} {held : Nat → Nat} {req : Req} (bal : Balance d held)
    (fresh : d.replies = []) (sent : Sent held req) (good : Balanced e d req)
    (ran : handle req e d = some ((),t)) :
    Balance t (fun a => held a + delivered a t.replies - forgotten a req) := by
  cases req with
  | lookup => exact lookupSettled bal fresh good ran
  | mknod => exact mknodSettled bal (refersKnown bal sent) fresh good.1 good.2 ran
  | link => exact linkSettled bal fresh sent.1 ran
  | create => exact createSettled bal (refersKnown bal sent) fresh good ran
  | unlink => exact unlinkSettled bal fresh good ran
  | readdirplus ino stream =>
    obtain ⟨i,u,first,rest⟩ := bindSome ran
    obtain ⟨rfl,_⟩ := getInodeSome first
    exact @readdirSettled _ _ _ _ _ _ [] bal fresh good rest
  | forget ino n =>
    obtain ⟨_,u,first,last⟩ := bindSome ran
    have all : forgetAll [(ino,n)] e d = some ((),u) := bindEq first
    exact forgetSettled bal fresh sent ((bindEq all).trans last)
  | forgetMulti => exact forgetSettled bal fresh sent ran
  | rmdir | rename | openFile | release | writeBuf | getattr | setattr | setxattr | removexattr =>
    cases sent

def Guarded (s : Session) (x : Req × Env Call) : Prop :=
  Sent s.held x.1 ∧ Balanced x.2 {s.driver with replies := []} x.1

def start (opts : Options) (fs id : Volume Call) : Session := ⟨boot opts fs id,fun _ => 0⟩

theorem stepBalance {s : Session} {x : Req × Env Call} (bal : Balance s.driver s.held) (guard : Guarded s x) :
    ∃ t, step s x = some t ∧ Balance t.driver t.held := by
  have asked : Balance {s.driver with replies := []} s.held :=
    balanceKin bal ⟨rfl,rfl,rfl,refl_of (Held s.driver.id.next) s.driver.id⟩
  obtain ⟨_,t,ran,_⟩ := Service.requestSays (e := x.2) (sentValid asked guard.1)
  have settled := requestSettled asked rfl guard.1 guard.2 ran
  exact ⟨_,by simp only [step,ran]; rfl,settled⟩

theorem countsReferences {opts : Options} {fs id : Volume Call} {events : List (Req × Env Call)}
    (apart : id.dev ≠ fs.dev) (meets : Meets step Guarded (start opts fs id) events) :
    ∃ s, run step (start opts fs id) events = some s ∧
      (∀ c ∈ s.driver.inodes.cells, c.value.nlookup = s.held c.addr) ∧
      ∀ a, 0 < s.held a → (∃ c ∈ s.driver.inodes.cells, c.addr = a) ∧
        ∀ n e, n ≤ s.held a → ∃ t, forgetOne (.node a) n e s.driver = some ((),t) := by
  have first : Balance (start opts fs id).driver (start opts fs id).held := by
    refine ⟨?_,?_,?_,?_,?_,apart,?_⟩
    · intro c mem
      cases mem
    · intro a some
      cases some
    · intro c mem
      cases mem
    · intro c mem
      cases mem
    · intro c mem
      cases mem
    · intro c mem
      cases mem
  obtain ⟨s,ran,bal⟩ := Lib.Run.completes Guarded (fun s => Balance s.driver s.held) stepBalance first meets
  refine ⟨s,ran,bal.counts,fun a some => ⟨bal.there a some,fun n e few => ?_⟩⟩
  obtain ⟨_,t,forgot,_⟩ := Service.forgetRuns (e := e) (heldValid bal some few)
  exact ⟨t,forgot⟩

instance (e : Env Call) (d : State) (parent : Ref) (name : FileName) :
    Decidable (LookGood e d parent name) :=
  inferInstanceAs (Decidable (_ ∧ ∀ dir ∈ d.inode parent, _))

instance (e : Env Call) (d : State) (parent : Ref) (name : FileName) :
    Decidable (NewGood e d parent name) := by unfold NewGood; infer_instance

instance decidableReadGood (ino : Ref) : ∀ (d : State) (stream : List DirEntry), Decidable (ReadGood ino d stream)
  | _,[] => isTrue trivial
  | d,x::rest =>
      have : Decidable (match doLookup ino x.name x.env d with
          | some (.ok _,t) => x.fits = true → ReadGood ino t rest
          | _ => True) := match doLookup ino x.name x.env d with
        | some (.ok _,t) => have := decidableReadGood ino t rest; inferInstance
        | some (.error _,_) => isTrue trivial
        | none => isTrue trivial
      inferInstanceAs (Decidable (LookGood x.env d ino x.name ∧ _))

instance (e : Env Call) (d : State) (req : Req) : Decidable (Balanced e d req) := by
  unfold Balanced
  rcases req <;> infer_instance

instance (held : Nat → Nat) (ref : Ref) : Decidable (Refers held ref) := by
  unfold Refers
  rcases ref <;> infer_instance

instance decidableReturns : ∀ (held : Nat → Nat) (forgets : List (Ref × Nat)), Decidable (Returns held forgets)
  | _,[] => isTrue trivial
  | _,(.root,_)::_ => isFalse id
  | held,(.node a,n)::rest =>
      have := decidableReturns (fun b => held b - if b = a then n else 0) rest
      inferInstanceAs (Decidable (0 < held a ∧ n ≤ held a ∧ _))

instance (held : Nat → Nat) (req : Req) : Decidable (Sent held req) := by
  unfold Sent
  rcases req <;> infer_instance

instance (s : Session) (x : Req × Env Call) : Decidable (Guarded s x) := by unfold Guarded; infer_instance

def idRun : List (Req × Env Call) :=
  [(.create .root nameId forWriting,calm 10),
   (.lookup .root nameId,calm 11),
   (.readdirplus .root [⟨nameId,true,calm 11⟩],calm 11),
   (.forget (.node 0) 2,calm 11)]

theorem idRunCounted : ∃ s, run step ⟨mounted false,fun _ => 0⟩ idRun = some s ∧
    (∀ c ∈ s.driver.inodes.cells, c.value.nlookup = s.held c.addr) ∧
    ∀ a, 0 < s.held a → (∃ c ∈ s.driver.inodes.cells, c.addr = a) ∧
      ∀ n e, n ≤ s.held a → ∃ t, forgetOne (.node a) n e s.driver = some ((),t) :=
  countsReferences (by decide) (by decide +kernel)

theorem unlinkCounts : (run step ⟨mounted false,fun _ => 0⟩
    [(.create .root nameA forWriting,calm 10),(.unlink .root nameA,calm 11)]).map (fun s =>
      (s.driver.inodes.cells.map fun c => (c.addr,c.value.nlookup),s.held 0)) = some ([(0,2)],1) := by
  decide +kernel

end F3.Driver.Ledger
