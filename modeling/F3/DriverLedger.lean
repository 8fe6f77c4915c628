import F3.DriverReplies
import F3.DriverAround
import F3.DriverAnswers
import F3.DriverKeys

/-! The kernel's references. It holds one for each entry that a reply has brought it and
gives them back in forgets; nlookup is the driver's own count of them. -/
namespace F3.Driver.Ledger
open Lib (Bytes Arena Cell Prog)
open Lib.Posix
open Lib.Run (run Meets)
open Service (Known Valid)

structure Session where
  driver : State
  held : Nat → Nat

def one (x : EntryParam) (a : Nat) : Nat := if x.ino = some a then 1 else 0

def named (a : Nat) : Reply → Nat
  | .entry (some x) => one x a
  | .create x _ => one x a
  | .entries es => es.countP (fun x => x.2.ino = some a)
  | _ => 0

def delivered (a : Nat) : List Reply → Nat
  | [] => 0
  | r::_ => named a r

def returned (a : Nat) : List (Ref × Nat) → Nat
  | [] => 0
  | (ino,n)::rest => (if ino = .node a then n else 0) + returned a rest

def forgotten (a : Nat) : Req → Nat
  | .forget ino n => returned a [(ino,n)]
  | .forgetMulti forgets => returned a forgets
  | _ => 0

def step (s : Session) (x : Req × Env Call) : Option Session := do
  let (_,t) ← handle x.1 x.2 {s.driver with replies := []}
  some ⟨t,fun a => s.held a + delivered a t.replies - forgotten a x.1⟩

def Refers (held : Nat → Nat) : Ref → Prop
  | .root => True
  | .node a => 0 < held a

def Returns (held : Nat → Nat) : List (Ref × Nat) → Prop
  | [] => True
  | (.root,_)::_ => False
  | (.node a,n)::rest => 0 < held a ∧ n ≤ held a ∧
      Returns (fun b => held b - if b = a then n else 0) rest

def Sent (held : Nat → Nat) : Req → Prop
  | .lookup parent _ => Refers held parent
  | .mknod parent _ _ _ => Refers held parent
  | .link ino parent _ => Refers held ino ∧ Refers held parent
  | .create parent _ _ => Refers held parent
  | .unlink parent _ => Refers held parent
  | .readdirplus ino _ => Refers held ino
  | .forget ino n => Returns held [(ino,n)]
  | .forgetMulti forgets => Returns held forgets
  | _ => False

/- Every inode is counted as the kernel counts it. The rest is what keeps it so: no inode
is unlinked or unfilled, a wrong key is one that no inode has, and an ID inode can be
stated. -/
structure Balance (d : State) (held : Nat → Nat) : Prop where
  counts : ∀ c ∈ d.inodes.cells, c.value.nlookup = held c.addr
  there : ∀ a, 0 < held a → ∃ c ∈ d.inodes.cells, c.addr = a
  live : ∀ c ∈ d.inodes.cells, c.value.Live
  keys : ∀ c ∈ d.inodes.cells, c.key.2 = d.conf.srcDev
  filed : ∀ c ∈ d.inodes.cells, c.value.src = c.key ∨ c.value.src.2 = d.id.vol.dev
  apart : d.id.vol.dev ≠ d.conf.srcDev
  copies : CopiesOpen d

structure Kin (d d' : State) : Prop where
  inodes : d'.inodes = d.inodes
  conf : d'.conf = d.conf
  dev : d'.id.vol.dev = d.id.vol.dev
  held : Held d.id.next d.id d'.id

instance : IsPreorder State Kin where
  refl d := ⟨rfl,rfl,rfl,refl_of (Held d.id.next) d.id⟩
  trans d _ _ one two := ⟨two.inodes.trans one.inodes,two.conf.trans one.conf,two.dev.trans one.dev,
    trans_of (Held d.id.next) one.held (heldLess one.held.next two.held)⟩

section Balance
variable {e : Env Call} {d d' : State} {held : Nat → Nat}

theorem balanceKin (bal : Balance d held) (kin : Kin d d') : Balance d' held := by
  refine ⟨?_,?_,?_,?_,?_,?_,?_⟩
  · rw [kin.inodes]
    exact bal.counts
  · rw [kin.inodes]
    exact bal.there
  · rw [kin.inodes]
    exact bal.live
  · rw [kin.inodes,kin.conf]
    exact bal.keys
  · rw [kin.inodes,kin.dev]
    exact bal.filed
  · rw [kin.conf,kin.dev]
    exact bal.apart
  · intro c mem live isId
    rw [kin.inodes] at mem
    obtain ⟨f,open_⟩ := Option.isSome_iff_exists.mp (bal.copies c mem live isId)
    rw [heldFile kin.held open_]
    rfl

def LookGood (e : Env Call) (d : State) (parent : Ref) (name : FileName) : Prop :=
  e.fault .lookupStatId = none ∧ ∀ dir, d.inode parent = some dir → isNewId d.fs dir name = true →
    CopyCalm e ∧ Copyable e d.id dir.idFd name

theorem freshHeld (bal : Balance d held) : held d.inodes.next = 0 := by
  by_contra some
  obtain ⟨c,mem,same⟩ := bal.there _ (Nat.pos_of_ne_zero some)
  exact Nat.lt_irrefl _ (same ▸ d.inodes.used c mem)

theorem lookupFiled (bal : Balance d held) {parent name r} (ok : doLookup parent name e d = some (r,d')) :
    ∀ c ∈ d'.inodes.cells, c.value.src = c.key ∨ c.value.src.2 = d'.id.vol.dev := by
  intro c mem
  have dev := (doLookupLooks parent name e d r d' ok).id.dev
  rcases lookupSourced ok c mem with keyed | stamped | ⟨b,old,key,same⟩
  · exact .inl keyed
  · exact .inr (stamped.trans dev.symm)
  · rw [same,← key,dev]
    exact bal.filed b old

theorem balanceModify {held' : Nat → Nat} {c : Cell SrcId Inode} {f : Inode → Inode} (bal : Balance d held)
    (mem : c ∈ d.inodes.cells) (table : d'.inodes = d.inodes.modify c.addr f) (conf : d'.conf = d.conf)
    (dev : d'.id.vol.dev = d.id.vol.dev) (heldId : Held d.id.next d.id d'.id)
    (count : (f c.value).nlookup = held' c.addr) (others : ∀ a, a ≠ c.addr → held' a = held a)
    (live : (f c.value).Live)
    (filed : ∀ c ∈ d'.inodes.cells, c.value.src = c.key ∨ c.value.src.2 = d'.id.vol.dev)
    (same : (f c.value).isId = true → c.value.isId = true ∧ (f c.value).idFd = c.value.idFd) :
    Balance d' held' := by
  have stillId : ∀ {slot}, (d.id.file slot).isSome = true → (d'.id.file slot).isSome = true := by
    intro slot open_
    obtain ⟨g,open_⟩ := Option.isSome_iff_exists.mp open_
    rw [heldFile heldId open_]
    rfl
  have only : ∀ {b}, b ∈ d.inodes.cells → b.addr = c.addr → b = c := fun old => Arena.sameAddr old mem
  refine ⟨?_,fun a some => ?_,?_,?_,filed,?_,?_⟩
  · rw [table]
    refine Arena.allModify (fun b old other => ?_) fun b old here => ?_
    · rw [bal.counts b old,others _ other]
    · cases only old here
      exact count
  · rw [table]
    by_cases here : a = c.addr
    · exact ⟨_,Arena.memModify f mem,here.symm⟩
    · rw [others a here] at some
      obtain ⟨b,old,rfl⟩ := bal.there a some
      exact ⟨b,Arena.memModifyOther f old here,rfl⟩
  · rw [table]
    refine Arena.allModify (fun b old _ => bal.live b old) fun b old here => ?_
    cases only old here
    exact live
  · rw [table,conf]
    exact Arena.allModify (fun b old _ => bal.keys b old) fun b old _ => bal.keys b old
  · rw [conf,dev]
    exact bal.apart
  · rw [CopiesOpen,table]
    refine Arena.allModify (fun b old _ lives isId => stillId (bal.copies b old lives isId))
      fun b old here lives isId => ?_
    cases only old here
    obtain ⟨wasId,idFd⟩ := same isId
    rw [idFd]
    exact stillId (bal.copies _ mem (bal.live _ mem) wasId)

theorem oneNamed {x : EntryParam} {a : Nat} (named : x.ino = some a) :
    one x a = 1 ∧ ∀ b, b ≠ a → one x b = 0 := by
  refine ⟨by simp [one,named],fun b other => ?_⟩
  simp [one,named,Ne.symm other]

theorem countedBalance (bal : Balance d held) {parent name r dir newfd attr c src}
    (stats : e.fault .lookupStatId = none) (ok : doLookup parent name e d = some (r,d'))
    (up : d.inode parent = some dir) (found : resolve e d.fs d.conf.srcDev dir name = some (newfd,attr))
    (here : d.inodes.atKey (attr.ino,attr.dev) = some c)
    (naming : ∀ x, r = .ok x → x.ino = some c.addr)
    (table : d'.inodes = d.inodes.modify c.addr (fun i => {i with nlookup := i.nlookup + 1, src := src})) :
    ∃ x, r = .ok x ∧ Balance d' (fun a => held a + one x a) := by
  obtain ⟨mem,_⟩ := Arena.atKeyMem here
  have looks := doLookupLooks parent name e d r d' ok
  have told := lookupTold up ok
  simp only [Told,found,slotted,here,Option.map_some,Option.getD_some,if_pos (bal.live c mem)] at told
  obtain ⟨x,rfl⟩ := answeredOpen stats (fun isId =>
    Option.isSome_iff_exists.mp (bal.copies c mem (bal.live c mem) isId)) told.2
  obtain ⟨here,others⟩ := oneNamed (naming x rfl)
  refine ⟨x,rfl,balanceModify bal mem table looks.conf looks.id.dev (lookupHeldId ok) ?_ ?_
    (bal.live c mem) (lookupFiled bal ok) fun isId => ⟨isId,rfl⟩⟩
  · simp only [here,bal.counts c mem]
  · intro a other
    rw [others a other,Nat.add_zero]

theorem freshAddr {c : Cell SrcId Inode} (bal : Balance d held) (absent : d.inodes.atKey c.key = none)
    (entered : (d.inodes.enter c.key {}).1.atAddr c.addr = some c) (dead : ¬ c.value.Live) :
    c.addr = d.inodes.next := by
  have mem := (Arena.atAddrMem entered).1
  rw [Arena.enterNew {} absent] at mem
  rcases List.mem_cons.mp mem with new | known
  · exact congrArg Cell.addr new
  · exact absurd (bal.live c known) dead

theorem newCopyOpens {parent : Ref} {name : FileName} {dir : Inode} {up p} (kind : Kind)
    (good : LookGood e d parent name) (known : d.inode parent = some dir) (at_ : d.fs.dirAt dir.fd = .ok (up,p))
    (isNew : isNewHere e d.fs dir name = true) :
    ∃ f, (openIdCopy dir.idFd name kind e d.id).2.file (openIdCopy dir.idFd name kind e d.id).1.1 = some f := by
  have marked : isNewId d.fs dir name = true := by
    by_contra plain
    rw [Keys.isNewHereBack at_ (by simpa using plain)] at isNew
    cases isNew
  obtain ⟨calm,can⟩ := good.2 dir known marked
  obtain ⟨idUp,q,atId,room⟩ := copyable can
  obtain ⟨f,there,_⟩ := (copyOpens kind calm atId room).file
  exact ⟨f,there⟩

theorem builtBalance (bal : Balance d held) {parent name r dir newfd attr c src conn}
    (good : LookGood e d parent name) (ok : doLookup parent name e d = some (r,d'))
    (up : d.inode parent = some dir) (found : resolve e d.fs d.conf.srcDev dir name = some (newfd,attr))
    (key : c.key = (attr.ino,attr.dev))
    (old : d.inodes.atKey c.key = some c ∨ d.inodes.atKey c.key = none ∧ c.value = {})
    (entered : (d.inodes.enter c.key {}).1.atAddr c.addr = some c) (dead : ¬ c.value.Live)
    (naming : ∀ x, r = .ok x → x.ino = some c.addr)
    (table : d'.inodes = (d.inodes.enter c.key {}).1.modify c.addr (fun i =>
      {i.built c.key newfd (isNewHere e d.fs dir name)
        (openIdCopy dir.idFd name attr.kind e d.id).1 conn with src := src})) :
    ∃ x, r = .ok x ∧ Balance d' (fun a => held a + one x a) := by
  obtain ⟨upEntry,p,entry,at_,_,newest,_,dev⟩ := resolved found
  have looks := doLookupLooks parent name e d r d' ok
  obtain ⟨absent,empty⟩ := old.resolve_left fun here => dead (bal.live c (Arena.atKeyMem here).1)
  have address := freshAddr bal absent entered dead
  have told := lookupTold up ok
  simp only [Told,found,slotted,← key,absent,Option.map_none,Option.getD_none] at told
  rw [if_neg (fun live => live.1 rfl),Bool.false_or] at told
  have opens : isNewHere e d.fs dir name = true →
      ∃ f, d'.id.file (openIdCopy dir.idFd name attr.kind e d.id).1.1 = some f := by
    intro isNew
    rw [told.1]
    exact newCopyOpens attr.kind good up at_ isNew
  obtain ⟨x,rfl⟩ := answeredOpen good.1 opens told.2
  obtain ⟨here,others⟩ := oneNamed (naming x rfl)
  have before : ∀ {b}, b ∈ (d.inodes.enter c.key {}).1.cells → b.addr ≠ c.addr → b ∈ d.inodes.cells :=
    fun mem other => Arena.enterOthers entered rfl _ mem other
  refine ⟨x,rfl,⟨?_,fun a some => ?_,?_,?_,lookupFiled bal ok,?_,?_⟩⟩
  · rw [table]
    refine Arena.allModify (fun b mem other => ?_) fun b mem same => ?_
    · rw [bal.counts b (before mem other),others _ other,Nat.add_zero]
    · cases Arena.onlyAt entered mem same
      have none : held c.addr = 0 := by rw [address,freshHeld bal]
      simp only [Inode.built,Inode.fill,empty,here,none]
  · rw [table]
    by_cases same : a = c.addr
    · exact ⟨_,Arena.memModify _ (Arena.atAddrMem entered).1,same.symm⟩
    · rw [others a same,Nat.add_zero] at some
      obtain ⟨b,mem,rfl⟩ := bal.there a some
      have still := Arena.atAddrEnter (k := c.key) {} (Arena.memAtAddr mem)
      exact ⟨b,Arena.memModifyOther _ (Arena.atAddrMem still).1 same,rfl⟩
  · rw [table]
    refine Arena.allModify (fun b mem other => bal.live b (before mem other)) fun b mem same => ?_
    simp [Inode.Live,Inode.built,Inode.fill,newest]
  · rw [table,looks.conf]
    refine Arena.allModify (fun b mem other => bal.keys b (before mem other)) fun b mem same => ?_
    cases Arena.onlyAt entered mem same
    rw [key,dev]
  · rw [looks.conf,looks.id.dev]
    exact bal.apart
  · rw [CopiesOpen,table]
    refine Arena.allModify (fun b mem other lives isId => ?_) fun b mem same lives isId => ?_
    · obtain ⟨g,there⟩ := Option.isSome_iff_exists.mp (bal.copies b (before mem other) lives isId)
      rw [heldFile (lookupHeldId ok) there]
      rfl
    · cases Arena.onlyAt entered mem same
      obtain ⟨g,there⟩ := opens (by simpa [Inode.built,empty] using isId)
      simp only [Inode.built,there,Option.isSome_some]

theorem lookupBalance (bal : Balance d held) {parent name r} (good : LookGood e d parent name)
    (ok : doLookup parent name e d = some (r,d')) :
    (∃ err, r = .error err) ∧ Balance d' held ∨
      ∃ x, r = .ok x ∧ Balance d' (fun a => held a + one x a) := by
  have looks := doLookupLooks parent name e d r d' ok
  cases looked ok with
  | missed up nothing failed table =>
    exact .inl ⟨failed,balanceKin bal ⟨table,looks.conf,looks.id.dev,lookupHeldId ok⟩⟩
  | known up found here live plain naming table =>
    exact .inr (countedBalance bal good.1 ok up found here naming table)
  | built up found key old entered dead plain naming table =>
    exact .inr (builtBalance bal good ok up found key old entered dead naming table)

theorem eraseBalance (bal : Balance d held) {key : SrcId} (ok : eraseInode key e d = some ((),d'))
    (gone : ∀ c ∈ d.inodes.cells, c.key = key → held c.addr = 0) : Balance d' held := by
  obtain ⟨u,v,got,rest⟩ := Prog.bindSome ok
  cases Option.some.inj got
  cases here : d.inodes.atKey key with
  | none =>
    simp only [here] at rest
    rw [(Prog.pureSome rest).2]
    exact bal
  | some c =>
    simp only [here] at rest
    obtain ⟨_,w,closed,last⟩ := Prog.bindSome rest
    obtain ⟨_,rfl⟩ := sysSome closed
    cases Option.some.inj last
    have stays : ∀ b ∈ (d.inodes.erase key).cells, b ∈ d.inodes.cells := fun b mem => (List.mem_filter.mp mem).1
    refine ⟨fun b mem => bal.counts b (stays b mem),fun a some => ?_,fun b mem => bal.live b (stays b mem),
      fun b mem => bal.keys b (stays b mem),fun b mem => bal.filed b (stays b mem),bal.apart,
      fun b mem => bal.copies b (stays b mem)⟩
    obtain ⟨b,mem,rfl⟩ := bal.there a some
    refine ⟨b,List.mem_filter.mpr ⟨mem,?_⟩,rfl⟩
    simp only [decide_not,Bool.not_eq_true',decide_eq_false_iff_not]
    intro same
    rw [gone b mem same] at some
    cases some

theorem cellHeld (bal : Balance d held) {a : Nat} (some : 0 < held a) :
    ∃ c ∈ d.inodes.cells, c.addr = a ∧ d.inode (.node a) = .some c.value ∧ c.value.Live ∧
      c.value.nlookup = held a := by
  obtain ⟨c,mem,rfl⟩ := bal.there a some
  exact ⟨c,mem,rfl,inodeNode (Arena.memAtAddr mem),bal.live c mem,bal.counts c mem⟩

theorem forgetBalance (bal : Balance d held) {a n : Nat} (some : 0 < held a)
    (ok : forgetOne (.node a) n e d = .some ((),d')) :
    Balance d' (fun b => held b - if b = a then n else 0) := by
  obtain ⟨c,mem,rfl,known,live,count⟩ := cellHeld bal some
  unfold forgetOne at ok
  rw [Prog.bindEq (getInodeEq e known fun _ => live.1)] at ok
  split at ok
  · cases ok
  let f : Inode → Inode := fun i => {i with nlookup := i.nlookup - n}
  let d1 := d.setInode (.node c.addr) f
  have less : Balance d1 (fun b => held b - if b = c.addr then n else 0) := by
    refine balanceModify bal mem (f := f) rfl rfl rfl (refl_of (Held d.id.next) d.id) ?_ ?_ live ?_
      fun isId => ⟨isId,rfl⟩
    · simp [f,count]
    · intro b other
      simp [other]
    · exact Arena.allModify (fun b old _ => bal.filed b old) fun b old _ => bal.filed b old
  have rest : Prog.onlyIf (c.value.nlookup - n = 0) (eraseInode c.value.src) e d1 = .some ((),d') := ok
  unfold Prog.onlyIf at rest
  split at rest
  · rename_i none
    refine eraseBalance less rest fun b old same => ?_
    have keyed : c.value.src = c.key := by
      refine (bal.filed c mem).resolve_right fun stamped => bal.apart ?_
      rw [← stamped,← same]
      exact less.keys b old
    have here := Arena.sameKey old (Arena.memModify f mem) (same.trans keyed)
    rw [here]
    simp [← count,none]
  · rw [(Prog.pureSome rest).2]
    exact less

theorem forgetAllBalance {forgets : List (Ref × Nat)} (bal : Balance d held) (returns : Returns held forgets)
    (ok : forgetAll forgets e d = some ((),d')) : Balance d' (fun a => held a - returned a forgets) := by
  induction forgets generalizing d held with
  | nil =>
    rw [(Prog.pureSome ok).2]
    exact bal
  | cons x rest ih =>
    obtain ⟨ino,n⟩ := x
    cases ino with
    | root => cases returns
    | node a =>
      obtain ⟨some,few,returns⟩ := returns
      obtain ⟨_,u,first,last⟩ := Prog.bindSome ok
      have after := ih (forgetBalance bal some first) returns last
      have same : (fun b => held b - (if b = a then n else 0) - returned b rest) =
          fun b => held b - returned b ((.node a,n)::rest) := by
        funext b
        simp only [returned,Ref.node.injEq,eq_comm,Nat.sub_sub]
      rw [← same]
      exact after

theorem heldValid {a n : Nat} (bal : Balance d held) (some : 0 < held a) (few : n ≤ held a) :
    Service.Held d (.node a) n := by
  obtain ⟨c,_,_,known,live,count⟩ := cellHeld bal some
  exact ⟨c.value,known,fun _ => live.1,by rw [count]; exact few⟩

theorem heldAllValid {forgets : List (Ref × Nat)} (bal : Balance d held) (returns : Returns held forgets) :
    Service.HeldAll e d forgets := by
  induction forgets generalizing d held with
  | nil => trivial
  | cons x rest ih =>
    obtain ⟨ino,n⟩ := x
    cases ino with
    | root => cases returns
    | node a =>
      obtain ⟨some,few,returns⟩ := returns
      exact ⟨heldValid bal some few,fun t first => ih (forgetBalance bal some first) returns⟩

theorem refersKnown {ref : Ref} (bal : Balance d held) (refers : Refers held ref) : Known d ref := by
  cases ref with
  | root => exact ⟨d.root,rfl,fun ne => absurd rfl ne⟩
  | node a =>
    obtain ⟨c,_,_,known,live,_⟩ := cellHeld bal refers
    exact ⟨c.value,known,fun _ => live.1⟩

theorem sentValid {req : Req} (bal : Balance d held) (sent : Sent held req) : Valid e d req := by
  cases req with
  | lookup | mknod | create | unlink | readdirplus => exact refersKnown bal sent
  | link => exact ⟨refersKnown bal sent.1,refersKnown bal sent.2⟩
  | forget ino n => exact (heldAllValid (e := e) bal sent).1
  | forgetMulti => exact heldAllValid bal sent
  | rmdir | rename | openFile | release | writeBuf | getattr | setattr | setxattr | removexattr =>
    cases sent

end Balance

end F3.Driver.Ledger
