import F3.DriverOwners
import F3.Lib.Run

/-! Runs of the driver as its kernel drives it: every request that it serves, with what
its calls do, changes from outside in the two trees, and restarts. -/
namespace F3.Driver.Owners
open Lib (Bytes Arena Cell Prog Act)
open Lib.Prog (keepsBind bindSome pureSome keepsIte)
open Lib.Posix
open Lib.Run (run Meets)
open Fds
open Service (Outside Desk Op Dirent DirHandle Serve Site core call attempt answer fail)

-- A lookup whose answer is not lost: the stat of the ID copy of what it finds cannot fail.
def LookStats (e : Env Call) (d : State) (parent : Ref) (name : FileName) : Prop :=
  ∀ dir ∈ d.inode parent, ∀ entry ∈ foundAt d.fs dir.fd name,
    StatsCopy e d dir name entry.ino (Copyable e d.id dir.idFd name)

def ReadStats (ino : Ref) : State → List DirEntry → Prop
  | _,[] => True
  | d,x::rest => LookStats x.env d ino x.name ∧
      match doLookup ino x.name x.env d with
      | some (.ok _,t) => x.fits = true → ReadStats ino t rest
      | _ => True

def lookedUp : Dirent → Option DirEntry
  | .dots => none
  | .entry x _ _ => some x

def dirOf : Service.Answer → Option Handle
  | .opendir dh => some ⟨dh.side,dh.fd⟩
  | _ => none

def Answering (out : Outside) (d : State) : Op → Prop
  | .request (.lookup parent name) => LookStats out.calls d parent name
  | .request (.unlink parent name) => d.conf.cached = true ∨ LookStats out.calls d parent name
  | .request (.create parent name _) => ∀ dir ∈ d.inode parent,
      ∀ ino ∈ createdIno (.create .fs) d.fs dir.fd name out.calls, StatsCopy out.calls d dir name ino True
  | .request (.mknod parent name kind _) => ∀ dir ∈ d.inode parent,
      StatsCopy out.calls d dir name (out.calls.ino (.mknod .fs))
        (kind = .dir ∨ kind = .lnk ∨ Copyable out.calls d.id dir.idFd name)
  | .request (.readdirplus ino stream) => ReadStats ino d stream
  | .readdirplus ino stream => ReadStats ino d (stream.filterMap lookedUp)
  | _ => True

section Served
variable {α : Type} {held : List Handle}

theorem statsProper {e : Env Call} {d d' : State} {parent : Ref} {name : FileName} {r}
    (proper : Proper d held) (stats : LookStats e d parent name)
    (ok : doLookup parent name e d = some (r,d')) : Proper d' held := by
  obtain ⟨dir,d0,got,_⟩ := bindSome ok
  obtain ⟨rfl,known,_⟩ := getInodeSome got
  exact lookupProper proper known (fun found => statsAnswered known ok found (stats dir known)) ok

theorem lookupRequest {e : Env Call} {d d' : State} {parent : Ref} {name : FileName} (proper : Proper d held)
    (stats : LookStats e d parent name) (ok : sfsLookup parent name e d = some ((),d')) : Proper d' held := by
  obtain ⟨r,d1,lookup,last⟩ := bindSome ok
  have proper1 := statsProper proper stats lookup
  cases r with
  | error err => cases err <;> exact progProper last (replyKept _) proper1
  | ok x => exact progProper last (replyKept _) proper1

theorem unlinkRequest {e : Env Call} {d d' : State} {parent : Ref} {name : FileName} (proper : Proper d held)
    (stats : d.conf.cached = true ∨ LookStats e d parent name)
    (ok : sfsUnlink parent name e d = some ((),d')) : Proper d' held := by
  rcases unlinkRan ok with ⟨_,kept⟩ | ⟨uncached,r,d1,d2,lookup,kept,rest⟩
  · exact keptProper kept proper
  · have proper1 := statsProper proper (stats.resolve_left (by simp [uncached])) lookup
    rcases rest with rfl | ⟨x,released⟩
    · exact keptProper kept proper1
    · exact keptProper kept (releaseUnlinkedProper proper1 released)

def KeptDesk (k k' : Desk) : Prop := Kept k.driver k'.driver

instance : IsPreorder Desk KeptDesk where
  refl k := refl_of Kept k.driver
  trans _ _ _ one two := trans_of Kept one two

theorem coreRan {p : Handler α} {out : Outside} {k k' : Desk} {a : α} (ok : core p out k = some (a,k')) :
    ∃ t, p out.calls k.driver = some (a,t) ∧ k' = {k with driver := t} := by
  unfold Service.core at ok
  obtain ⟨⟨b,t⟩,ran,same⟩ := Option.map_eq_some_iff.mp ok
  cases same
  exact ⟨t,ran,rfl⟩

theorem coreSome {p : Handler α} {out : Outside} {k k' : Desk} {a : α} (ok : core p out k = some (a,k')) :
    p out.calls k.driver = some (a,k'.driver) := by
  obtain ⟨t,ran,rfl⟩ := coreRan ok
  exact ran

theorem coreInode {ref : Ref} {out : Outside} {k k' : Desk} {i : Inode}
    (ok : core (getInode ref) out k = some (i,k')) : k' = k := by
  obtain ⟨t,ran,rfl⟩ := coreRan ok
  rw [(getInodeSome ran).1]

theorem coreKept {p : Handler α} (kept : Prog.Keeps Kept p) : Prog.Keeps KeptDesk (core p) :=
  fun _ _ _ _ ok => kept _ _ _ _ (coreSome ok)

theorem callSome {s : Site} {side : Side} {f : Mount Call → Except Errno (α × Mount Call)} {out : Outside}
    {k k' : Desk} {r} (ok : call s side f out k = some (r,k')) : (∃ err, r = .error err) ∧ k' = k ∨
      ∃ a m, r = .ok a ∧ f (k.driver.mount side) = .ok (a,m) ∧
        k' = {k with driver := k.driver.setMount side m} := by
  unfold Service.call at ok
  split at ok
  · cases Option.some.inj ok
    exact Or.inl ⟨⟨_,rfl⟩,rfl⟩
  · split at ok
    · rename_i a m done
      cases Option.some.inj ok
      exact Or.inr ⟨a,m,rfl,done,rfl⟩
    · cases Option.some.inj ok
      exact Or.inl ⟨⟨_,rfl⟩,rfl⟩

theorem callKept {s : Site} {side : Side} {f : Mount Call → Except Errno (α × Mount Call)}
    (tidy : ∀ {m a m'}, f m = .ok (a,m') → Tidy m m') : Prog.Keeps KeptDesk (call s side f) := by
  intro out k r k' ok
  rcases callSome ok with ⟨_,rfl⟩ | ⟨a,m,_,done,rfl⟩
  · exact refl_of KeptDesk k'
  · exact mountKept k.driver side (tidy done)

theorem attemptSame {s : Site} {out : Outside} {k k' : Desk} {r} (ok : attempt s out k = some (r,k')) :
    k' = k := by
  rcases callSome ok with ⟨_,rfl⟩ | ⟨a,m,_,done,rfl⟩
  · rfl
  · cases done
    rfl

theorem attemptKept (s : Site) : Prog.Keeps KeptDesk (attempt s) := by
  intro out k r k' ok
  rw [attemptSame ok]
  exact refl_of KeptDesk k

theorem answerKept (a : Service.Answer) : Prog.Keeps KeptDesk (answer a) :=
  Prog.keepsModify fun k => refl_of Kept k.driver

theorem failKept (err : Errno) : Prog.Keeps KeptDesk (fail err) := coreKept (replyKept _)

theorem knownTidy {fd : Slot} {m : Mount Call} {a m'} (done : m.known fd = .ok (a,m')) : Tidy m m' := by
  unfold Mount.known at done
  split at done <;> cases done
  exact refl_of Tidy m

theorem readlinkKept (ino : Ref) : Prog.Keeps KeptDesk (Service.sfsReadlink ino) := by
  refine keepsBind (coreKept (getInodeKeeps ino)) fun i => keepsBind (callKept ?_) fun r => ?_
  · intro m a m' done
    unfold Mount.readlink at done
    split at done <;> try contradiction
    split at done <;> try contradiction
    cases done
    exact refl_of Tidy m
  · cases r with
    | error err => exact failKept _
    | ok target => exact keepsIte (failKept _) (answerKept _)

theorem onHandleKept (s : Site) (side : Side) (fd : Slot) : Prog.Keeps KeptDesk (Service.onHandle s side fd) :=
  keepsBind (callKept knownTidy) fun _ => coreKept (keptNames.replyErr _)

theorem statfsKept (ino : Ref) : Prog.Keeps KeptDesk (Service.sfsStatfs ino) := by
  refine keepsBind (coreKept (getInodeKeeps ino)) fun i =>
    keepsBind (callKept knownTidy) fun r => ?_
  cases r with
  | error err => exact failKept _
  | ok _ => exact answerKept _

theorem fallocateKept (mode offset length : Nat) (fh : Handle) :
    Prog.Keeps KeptDesk (Service.sfsFallocate mode offset length fh) := by
  refine keepsIte (failKept _) (keepsBind (callKept ?_) fun _ => coreKept (keptNames.replyErr _))
  intro m a m' done
  obtain ⟨f,_,done⟩ := exceptBind done
  split at done <;> cases done
  exact sameTidy rfl rfl rfl

theorem readKept (ino : Ref) (size off : Nat) (fh : Handle) :
    Prog.Keeps KeptDesk (Service.sfsRead ino size off fh) := by
  refine keepsBind (coreKept (getInodeKeeps ino)) fun i => keepsBind ?_ fun _ =>
    keepsBind (callKept ?_) fun r => ?_
  · intro out k a k' ok
    cases Option.some.inj ok
    exact refl_of Kept k.driver
  · intro m a m' done
    unfold Mount.pread at done
    split at done <;> try contradiction
    split at done <;> try contradiction
    split at done <;> cases done
    exact refl_of Tidy m
  · cases r with
    | error err => exact failKept _
    | ok bytes => exact answerKept _

theorem replyValueKept {s : Site} {side : Side} {read : Mount Call → Except Errno (Bytes × Mount Call)}
    (tidy : ∀ {m a m'}, read m = .ok (a,m') → Tidy m m') (size : Nat) :
    Prog.Keeps KeptDesk (Service.replyValue s side read size) := by
  refine keepsIte (keepsBind (attemptKept _) fun room => ?_)
    (keepsBind (callKept tidy) fun r => ?_)
  · cases room with
    | error err => exact failKept _
    | ok _ =>
      refine keepsBind (callKept ?_) fun r => ?_
      · intro m a m' done
        obtain ⟨⟨value,n⟩,got,done⟩ := exceptBind done
        simp only at done
        split at done <;> cases done
        exact tidy got
      · cases r with
        | error err => exact failKept _
        | ok value => exact keepsIte (coreKept (replyKept _)) (answerKept _)
  · cases r with
    | error err => exact failKept _
    | ok value => exact answerKept _

theorem getxattrKept (ino : Ref) (name : Bytes) (size : Nat) :
    Prog.Keeps KeptDesk (Service.sfsGetxattr ino name size) := by
  refine keepsBind (coreKept (getInodeKeeps ino)) fun i => replyValueKept ?_ size
  intro m a m' done
  obtain ⟨f,_,done⟩ := exceptBind done
  split at done <;> cases done
  exact refl_of Tidy m

theorem listxattrKept (ino : Ref) (size : Nat) : Prog.Keeps KeptDesk (Service.sfsListxattr ino size) := by
  refine keepsBind (coreKept (getInodeKeeps ino)) fun i => ?_
  intro out k a k' ok
  refine @replyValueKept .listxattr i.side _ ?_ size out k a k' ok
  intro m a m' done
  obtain ⟨f,_,done⟩ := exceptBind done
  cases done
  exact refl_of Tidy m

theorem doSetattrKept (ino : Ref) (valid : Service.SetAttr) (fi : Option Handle) :
    Prog.Keeps KeptDesk (Service.doSetattr ino valid fi) := by
  have once : ∀ c s, Prog.Keeps KeptDesk (Service.onlyOnce c (attempt s)) :=
    fun c s => keepsIte (attemptKept s) (Prog.keepsPure _)
  refine keepsBind (coreKept (getInodeKeeps ino)) fun i => keepsBind ?_ fun r => ?_
  · refine keepsAndThen (once _ _) fun _ => keepsAndThen (once _ _) fun _ => keepsAndThen ?_ fun _ => once _ _
    cases valid.size with
    | none => exact Prog.keepsPure _
    | some size => exact coreKept (keptNames.cuts i size fi)
  · cases r with
    | error err => exact failKept _
    | ok _ => exact coreKept (keptNames.getattr ino)

theorem collectedKept (err : Option Errno) (sofar : List (FileName × EntryParam)) :
    Prog.Keeps Kept (Service.replyCollected err sofar) := by
  cases err <;> exact replyKept _

theorem readdirKept (ino : Ref) (stream : List Dirent) (sofar : List (FileName × EntryParam)) :
    Prog.Keeps KeptDesk (Service.readdirLoop ino false stream sofar) := by
  induction stream generalizing sofar with
  | nil =>
    refine keepsBind (attemptKept _) fun r => ?_
    cases r <;> exact coreKept (collectedKept _ _)
  | cons x rest ih =>
    cases x with
    | dots => exact ih sofar
    | entry x attrIno kind =>
      simp only [Service.readdirLoop,Bool.false_eq_true,if_false]
      exact keepsIte (ih _) (coreKept (collectedKept _ _))

theorem readdirplusProper {ino : Ref} {out : Outside} {stream : List Dirent}
    {sofar : List (FileName × EntryParam)} {k k' : Desk} (proper : Proper k.driver held)
    (stats : ReadStats ino k.driver (stream.filterMap lookedUp))
    (ok : Service.readdirLoop ino true stream sofar out k = some ((),k')) : Proper k'.driver held := by
  induction stream generalizing k sofar with
  | nil =>
    have kept : Prog.Keeps KeptDesk (Service.readdirLoop ino true [] sofar) := by
      refine keepsBind (attemptKept _) fun r => ?_
      cases r <;> exact coreKept (collectedKept _ _)
    exact keptProper (kept out k () k' ok) proper
  | cons x rest ih =>
    cases x with
    | dots => exact ih proper stats ok
    | entry x attrIno kind =>
      simp only [List.filterMap_cons,lookedUp,ReadStats] at stats
      obtain ⟨first,others⟩ := stats
      simp only [Service.readdirLoop,if_true] at ok
      obtain ⟨r,k1,one,more⟩ := bindSome ok
      have lookup : doLookup ino x.name x.env k.driver = some (r,k1.driver) := coreSome one
      have proper1 := statsProper proper first lookup
      cases r with
      | error err => exact progProper (coreSome more) (collectedKept _ _) proper1
      | ok y =>
        simp only [lookup] at others
        simp only at more
        split at more
        · rename_i fits
          exact ih proper1 (others fits) more
        · obtain ⟨_,k2,forgot,last⟩ := bindSome more
          exact progProper (coreSome last) (collectedKept _ _) (forgetEntryProper proper1 (coreSome forgot))

theorem readdirRequest {ino : Ref} {e : Env Call} {d d' : State} {stream : List DirEntry}
    (proper : Proper d held) (stats : ReadStats ino d stream)
    (ok : sfsReaddirplus ino stream e d = some ((),d')) : Proper d' held := by
  obtain ⟨_,d0,got,loop⟩ := bindSome ok
  obtain ⟨rfl,_⟩ := getInodeSome got
  let out : Outside := ⟨e,fun _ => none,fun _ => 0,[]⟩
  have ends : out.fault .readdir = none := rfl
  have streams := Service.readdirStream ends ino stream [] ⟨d0,[],0⟩
  have names : (stream.map fun x => Dirent.entry x 0 .reg).filterMap lookedUp = stream := by
    simp [List.filterMap_map,Function.comp_def,lookedUp]
  have ran : Service.readdirLoop ino true (stream.map fun x => .entry x 0 .reg) [] out ⟨d0,[],0⟩ =
      some ((),⟨d',[],0⟩) := by
    rw [streams]
    simp only [core]
    rw [loop]
    rfl
  exact @readdirplusProper held ino out _ [] ⟨d0,[],0⟩ _ proper (names.symm ▸ stats) ran

theorem failGiven {err : Errno} {out : Outside} {k k' : Desk} (proper : Proper k.driver held)
    (fresh : k.answers = []) (ok : fail err out k = some ((),k')) :
    Proper k'.driver (k'.answers.filterMap dirOf ++ held) := by
  have same : k'.answers = k.answers := by
    obtain ⟨t,_,rfl⟩ := coreRan ok
    rfl
  rw [same,fresh]
  exact progProper (coreSome ok) (replyKept _) proper

theorem openDotOpens {m m' : Mount Call} {slot fd : Slot} (opens : m.openDot slot = .ok (fd,m')) :
    ∃ f, fd = .fd m.next ∧ Opened m.next f m m' := by
  unfold Mount.openDot at opens
  split at opens <;> try contradiction
  split at opens <;> try contradiction
  cases opens
  exact ⟨_,rfl,installOpened m _⟩

theorem opendirProper {ino : Ref} {out : Outside} {k k' : Desk} (proper : Proper k.driver held)
    (fresh : k.answers = []) (ok : Service.sfsOpendir ino out k = some ((),k')) :
    Proper k'.driver (k'.answers.filterMap dirOf ++ held) := by
  obtain ⟨i,k1,got,one⟩ := bindSome ok
  cases coreInode got
  obtain ⟨room,k2,tried,two⟩ := bindSome one
  cases attemptSame tried
  cases room with
  | error err => exact failGiven proper fresh two
  | ok _ =>
    obtain ⟨r,k3,calls,three⟩ := bindSome two
    obtain ⟨opened,k4,opens,rest⟩ := bindSome calls
    rcases callSome opens with ⟨⟨err,rfl⟩,rfl⟩ | ⟨fd,m,rfl,done,rfl⟩
    · obtain ⟨rfl,rfl⟩ := pureSome rest
      exact failGiven proper fresh three
    · obtain ⟨f,rfl,new⟩ := openDotOpens done
      have proper4 := openedProper proper i.side new
      obtain ⟨last,k5,dup,more⟩ := bindSome rest
      cases attemptSame dup
      cases last with
      | error err =>
        obtain ⟨rfl,rfl⟩ := pureSome more
        exact failGiven (k := {k with driver := _}) (droppedProper proper4) fresh three
      | ok _ =>
        obtain ⟨rfl,rfl⟩ := pureSome more
        cases Option.some.inj three
        simpa [fresh,dirOf] using proper4

theorem releasedirProper {dh : DirHandle} {out : Outside} {k k' : Desk} (proper : Proper k.driver held)
    (given : ⟨dh.side,dh.fd⟩ ∈ held) (ok : Service.sfsReleasedir dh out k = some ((),k')) :
    Proper k'.driver (held.erase ⟨dh.side,dh.fd⟩) := by
  obtain ⟨_,k1,closed,last⟩ := bindSome ok
  obtain ⟨_,same⟩ := sysSome (coreSome closed)
  refine progProper (coreSome last) (replyKept _) ?_
  rw [same]
  have first : Proper k.driver (⟨dh.side,dh.fd⟩::held.erase ⟨dh.side,dh.fd⟩) :=
    permProper proper (List.perm_cons_erase given)
  exact closedProper first out.calls

end Served

structure Session where
  driver : State
  held : List Handle

def given : Op → Desk → List Handle
  | .request (.openFile _ _),k => k.driver.replies.filterMap handleOf
  | .request (.create _ _ _),k => k.driver.replies.filterMap handleOf
  | .opendir _,k => k.answers.filterMap dirOf
  | _,_ => []

def returned : Op → Option Handle
  | .request (.release _ fh) => some fh
  | .releasedir dh => some ⟨dh.side,dh.fd⟩
  | _ => none

inductive Move where
  | serve (op : Op) (out : Outside)
  | outside (side : Side) (v : Volume Call)
  | restart

def step (s : Session) : Move → Option Session
  | .serve op out => if ∀ fh ∈ returned op, fh ∈ s.held then
      (Service.serve op out (Service.opened s.driver)).map fun r => ⟨r.2.driver,given op r.2 ++
        match returned op with
        | some fh => s.held.erase fh
        | none => s.held⟩
      else none
  | .outside side v => some {s with driver := s.driver.setMount side {s.driver.mount side with vol := v}}
  | .restart => some ⟨restart s.driver,[]⟩

def Guarded (s : Session) : Move → Prop
  | .serve op out => Answering out {s.driver with replies := []} op
  | _ => True

theorem bootProper (opts : Options) (fs id : Volume Call) : Proper (boot opts fs id) [] := by
  refine ⟨⟨?_,?_⟩,?_,rfl,rfl⟩
  · simp [places,boot,tableFds,handleFds,inodeFds,slotFds,Arena.empty]
  · intro x mem
    have start : x = (.fs,0) ∨ x = (.id,0) := by
      simpa [places,boot,tableFds,handleFds,inodeFds,slotFds,Arena.empty] using mem
    rcases start with rfl | rfl <;> rfl
  · intro c mem
    cases mem

theorem outsideProper {d : State} {held : List Handle} (proper : Proper d held) (side : Side)
    (v : Volume Call) : Proper (d.setMount side {d.mount side with vol := v}) held := by
  have tidy : Tidy (d.mount side) {d.mount side with vol := v} := sameTidy rfl rfl rfl
  exact keptProper (mountKept d side tidy) proper

theorem requestProper {held : List Handle} {req : Req} {out : Outside} {k k' : Desk}
    (proper : Proper k.driver held) (fresh : k.driver.replies = [])
    (answering : Answering out k.driver (.request req)) (gives : ∀ fh ∈ returned (.request req), fh ∈ held)
    (ok : core (handle req) out k = some ((),k')) :
    Proper k'.driver (given (.request req) k' ++ match returned (.request req) with
      | some fh => held.erase fh
      | none => held) := by
  have ran := coreSome ok
  cases req with
  | lookup => exact lookupRequest proper answering ran
  | unlink => exact unlinkRequest proper answering ran
  | create => exact createProper proper fresh (fun dir ino up number => answering dir up ino number) ran
  | mknod => exact mknodProper proper answering ran
  | readdirplus => exact readdirRequest proper answering ran
  | openFile => exact openProper proper fresh ran
  | release => exact releaseProper proper (gives _ rfl) ran
  | forget =>
    obtain ⟨_,d1,forgot,last⟩ := bindSome ran
    exact progProper last (replyKept _) (forgetProper proper forgot)
  | forgetMulti =>
    obtain ⟨_,d1,forgot,last⟩ := bindSome ran
    exact progProper last (replyKept _) (forgetAllProper proper forgot)
  | link => exact progProper ran (keptNames.link _ _ _) proper
  | rmdir => exact progProper ran (keptNames.rmdir _ _) proper
  | rename => exact progProper ran (keptNames.rename _ _ _ _ _) proper
  | writeBuf => exact progProper ran (keptNames.write _ _ _ _) proper
  | getattr => exact progProper ran (keptNames.getattr _) proper
  | setattr => exact progProper ran (keptNames.setattr _ _ _) proper
  | setxattr => exact progProper ran (setxattrKept _ _ _ _) proper
  | removexattr => exact progProper ran (removexattrKept _ _) proper

theorem serveProper {held : List Handle} {op : Op} {out : Outside} {k k' : Desk}
    (proper : Proper k.driver held) (fresh : k.driver.replies = [] ∧ k.answers = [])
    (answering : Answering out k.driver op) (gives : ∀ fh ∈ returned op, fh ∈ held)
    (ok : Service.serve op out k = some ((),k')) :
    Proper k'.driver (given op k' ++ match returned op with
      | some fh => held.erase fh
      | none => held) := by
  have kept : Prog.Keeps KeptDesk (Service.serve op) → Proper k'.driver held :=
    fun keeps => keptProper (keeps out k () k' ok) proper
  have listed : ∀ {ino plus stream}, Service.doReaddir ino plus stream out k = some ((),k') →
      Kept k.driver k'.driver ∨ Service.readdirLoop ino plus stream [] out k = some ((),k') := by
    intro ino plus stream ran
    obtain ⟨_,k1,got,one⟩ := bindSome ran
    cases coreInode got
    obtain ⟨room,k2,tried,two⟩ := bindSome one
    cases attemptSame tried
    cases room with
    | error err => exact Or.inl (failKept _ out k () k' two)
    | ok _ => exact Or.inr two
  cases op with
  | request req => exact requestProper proper fresh.1 answering gives ok
  | opendir => exact opendirProper proper fresh.2 ok
  | releasedir => exact releasedirProper proper (gives _ rfl) ok
  | readdir =>
    rcases listed ok with same | loop
    · exact keptProper same proper
    · exact keptProper (readdirKept _ _ _ out k () k' loop) proper
  | readdirplus =>
    rcases listed ok with same | loop
    · exact keptProper same proper
    · exact readdirplusProper proper answering loop
  | setattr => exact kept (doSetattrKept _ _ _)
  | readlink => exact kept (readlinkKept _)
  | fsyncdir => exact kept (onHandleKept _ _ _)
  | flush => exact kept (onHandleKept _ _ _)
  | fsync => exact kept (onHandleKept _ _ _)
  | flock => exact kept (onHandleKept _ _ _)
  | read => exact kept (readKept _ _ _ _)
  | statfs => exact kept (statfsKept _)
  | fallocate => exact kept (fallocateKept _ _ _ _)
  | getxattr => exact kept (getxattrKept _ _ _)
  | listxattr => exact kept (listxattrKept _ _)

theorem stepProper {s s' : Session} {m : Move} (proper : Proper s.driver s.held) (guard : Guarded s m)
    (ok : step s m = some s') : Proper s'.driver s'.held := by
  cases m with
  | serve op out =>
    simp only [step] at ok
    split at ok <;> try contradiction
    rename_i gives
    obtain ⟨⟨_,k⟩,ran,rfl⟩ := Option.map_eq_some_iff.mp ok
    exact serveProper (k := Service.opened s.driver) (repliesProper proper []) ⟨rfl,rfl⟩ guard gives ran
  | outside side v =>
    cases Option.some.inj ok
    exact outsideProper proper side v
  | restart =>
    cases Option.some.inj ok
    let opts : Options := ⟨s.driver.conf.idroot,s.driver.conf.address,s.driver.conf.cached⟩
    have fresh := bootProper opts (Mount.exit s.driver.fs) (Mount.exit s.driver.id)
    have kept : Kept (boot opts (Mount.exit s.driver.fs) (Mount.exit s.driver.id)) (restart s.driver) :=
      ⟨refl_of Tidy _,refl_of Tidy _,rfl,⟨rfl,rfl⟩,rfl⟩
    exact keptProper kept fresh

theorem descriptorsOwned {opts : Options} {fs id : Volume Call} {moves : List Move} {s : Session}
    (meets : Meets step Guarded ⟨boot opts fs id,[]⟩ moves)
    (ran : run step ⟨boot opts fs id,[]⟩ moves = some s) :
    (places s.driver s.held).Nodup ∧ (∀ x ∈ places s.driver s.held, IsOpen s.driver x) ∧
    (∀ c ∈ s.driver.inodes.cells, c.value.Live → ∃ n f, c.value.fd = .fd n ∧
      s.driver.fs.file (.fd n) = some f ∧ f.entry.ino = c.key.1) ∧
    s.driver.fs.stray = [] ∧ s.driver.id.stray = [] := by
  have proper := Lib.Run.invariant Guarded (fun s => Proper s.driver s.held)
    (fun inv guard ok => stepProper inv guard ok) (bootProper opts fs id) meets ran
  refine ⟨proper.owned.single,proper.owned.opened,fun c mem live => ?_,proper.once⟩
  cases fd : c.value.fd with
  | closed => exact absurd fd live.1
  | enoent => exact absurd fd live.2
  | fd n =>
    obtain ⟨f,file,ino⟩ := proper.refers c mem n fd
    exact ⟨n,f,rfl,file,ino⟩

instance (e : Env Call) (d : State) (parent : Ref) (name : FileName) :
    Decidable (LookStats e d parent name) := by
  unfold LookStats
  infer_instance

instance decidableReadStats (ino : Ref) :
    ∀ (d : State) (stream : List DirEntry), Decidable (ReadStats ino d stream)
  | _,[] => isTrue trivial
  | d,x::rest =>
      have : Decidable (match doLookup ino x.name x.env d with
          | some (.ok _,t) => x.fits = true → ReadStats ino t rest
          | _ => True) := match doLookup ino x.name x.env d with
        | some (.ok _,t) => have := decidableReadStats ino t rest; inferInstance
        | some (.error _,_) => isTrue trivial
        | none => isTrue trivial
      inferInstanceAs (Decidable (LookStats x.env d ino x.name ∧ _))

instance (out : Outside) (d : State) (op : Op) : Decidable (Answering out d op) := by
  unfold Answering
  rcases op with req | _ <;> try infer_instance
  rcases req <;> infer_instance

instance (s : Session) (m : Move) : Decidable (Guarded s m) := by
  unfold Guarded
  rcases m <;> infer_instance

def calmly (ino : Ino) : Outside := ⟨calm ino,fun _ => none,fun _ => 0,[]⟩

/- Without caching: an ID file and a plain one are made, the root is listed, and the plain
file is opened, closed, unlinked and forgotten. -/
def plainLife : List Move :=
  [.serve (.request (.create .root nameId forWriting)) (calmly 10),
   .serve (.request (.create .root nameB forWriting)) (calmly 11),
   .serve (.opendir .root) (calmly 12),
   .serve (.readdirplus .root [.dots,.entry ⟨nameId,true,calm 12⟩ 10 .reg]) (calmly 12),
   .serve (.releasedir ⟨.fs,.fd 11,0⟩) (calmly 12),
   .serve (.request (.release (.node 1) ⟨.fs,.fd 7⟩)) (calmly 12),
   .serve (.request (.unlink .root nameB)) (calmly 12),
   .serve (.request (.forget (.node 1) 2)) (calmly 12)]

theorem plainLifeOwned : ∃ s ∈ run step ⟨mounted false,[]⟩ plainLife,
    s.held = [⟨.id,.fd 1⟩] ∧ places s.driver s.held = {(.fs,0),(.fs,4),(.id,0),(.id,1),(.id,3)} ∧
    (places s.driver s.held).Nodup ∧ (∀ x ∈ places s.driver s.held, IsOpen s.driver x) ∧
    s.driver.fs.stray = [] ∧ s.driver.id.stray = [] := by
  have ends : ∃ s ∈ run step ⟨mounted false,[]⟩ plainLife,
      s.held = [⟨.id,.fd 1⟩] ∧ places s.driver s.held = {(.fs,0),(.fs,4),(.id,0),(.id,1),(.id,3)} := by
    decide +kernel
  obtain ⟨s,ran,held,owned⟩ := ends
  have meets : Meets step Guarded ⟨mounted false,[]⟩ plainLife := by decide +kernel
  obtain ⟨single,opened,_,once⟩ := descriptorsOwned meets ran
  exact ⟨s,ran,held,owned,single,opened,once⟩

/- An ID file that is found when the stat of its ID copy fails: the new inode keeps the
descriptor that do_lookup closes, and the next such lookup closes its own twice. -/
def statFails (ino : Ino) : Outside :=
  {calmly ino with calls := {calm ino with fault := fun c => if c = .lookupStatId then some .eio else none}}

def lostAnswer : List Move :=
  [.serve (.request (.create .root nameId forWriting)) (calmly 10),
   .restart,
   .serve (.request (.lookup .root nameId)) (statFails 11)]

theorem storedClosed : (∃ s ∈ run step ⟨mounted true,[]⟩ lostAnswer, ∃ c ∈ s.driver.inodes.cells,
      c.value.Live ∧ s.driver.fs.file c.value.fd = none) ∧
    ∃ s ∈ run step ⟨mounted true,[]⟩ (lostAnswer ++ [.serve (.request (.lookup .root nameId)) (statFails 11)]),
      s.driver.fs.stray ≠ [] := by
  decide +kernel

end F3.Driver.Owners
