import F3.Driver
import F3.Lib.Run
import F3.Lib.Threads
import Mathlib.Data.Fintype.Basic

/-! The locks of the multi-threaded loop. Any number of threads run do_lookup, forget_one,
sfs_unlink (without a cache timeout) and do_readdir; a step is the acquisition of one mutex
or what a thread does up to its next lock operation. What the calls in between answer is
part of the step. The kernel forgets no more lookups of an inode than it was told of. -/
namespace F3.Driver.Locks
open Lib.Run (run Meets)
open Lib.Threads

-- inode.fd: -1, positive, or -ENOENT.
inductive Fd where
  | fresh | live | unlinked
  deriving DecidableEq, Repr

structure Cell where
  src : SrcId
  fd : Fd
  nlookup : Nat
  isId : Bool
  deriving DecidableEq, Repr

inductive Mutex where
  | fs
  | inode (ref : Ref)
  deriving DecidableEq, Repr

/- The call of do_lookup or forget_one; do_readdir has stored the entries of `listed`. -/
inductive Site where
  | lookup | unlink | forget
  | readdir (dir : Ref) (listed : List Nat)
  deriving DecidableEq, Repr

/- Where a thread is. Inodes are named by their address. -/
inductive Place where
  | idle
  | doLookup (site : Site) (key : SrcId)
  | inTable (site : Site) (key : SrcId)
  | known (site : Site) (a : Nat)
  | counting (site : Site) (a : Nat)
  | unknown (site : Site) (a : Nat) (key : SrcId)
  | filling (site : Site) (a : Nat) (key : SrcId)
  | filled (site : Site) (a : Nat)
  | stat (site : Site) (a : Nat)
  | forget (site : Site) (a n : Nat)
  | forgetting (site : Site) (a n : Nat)
  | erasing (site : Site) (a : Nat)
  | erase (site : Site) (a : Nat)
  | erased (site : Site) (a : Nat)
  | unlink (a : Nat)
  | unlinking (a : Nat)
  | closing (a : Nat)
  | closed (a : Nat)
  | unlinked (a : Nat)
  | readdir (dir : Ref)
  | reading (dir : Ref) (listed : List Nat)
  | replying (dir : Ref) (listed : List Nat)
  deriving DecidableEq, Repr

def Site.held : Site → List Mutex
  | .readdir dir _ => [.inode dir]
  | _ => []

def Place.held : Place → List Mutex
  | .idle | .unlink _ | .readdir _ => []
  | .doLookup site _ | .known site _ | .stat site _ | .forget site _ _ => site.held
  | .inTable site _ | .unknown site _ _ | .erased site _ => .fs :: site.held
  | .counting site a | .filled site a | .forgetting site a _ | .erasing site a =>
      .inode (.node a) :: site.held
  | .filling site a _ | .erase site a => .inode (.node a) :: .fs :: site.held
  | .unlinking a | .closing a | .unlinked a => [.inode (.node a)]
  | .closed a => [.inode (.node a),.fs]
  | .reading dir _ | .replying dir _ => [.inode dir]

def Place.acquires : Place → Option (Mutex × Place)
  | .doLookup site key => some (.fs,.inTable site key)
  | .known site a => some (.inode (.node a),.counting site a)
  | .unknown site a key => some (.inode (.node a),.filling site a key)
  | .forget site a n => some (.inode (.node a),.forgetting site a n)
  | .erasing site a => some (.fs,.erase site a)
  | .unlink a => some (.inode (.node a),.unlinking a)
  | .closing a => some (.fs,.closed a)
  | .readdir dir => some (.inode dir,.reading dir [])
  | _ => none

def Place.waits (p : Place) (m : Mutex) : Prop := p.acquires.map Prod.fst = some m
instance (p m) : Decidable (Place.waits p m) := by unfold Place.waits; infer_instance

/- `told` is what the kernel knows: the lookups it was told of and has not forgotten. The
cell of an erased inode stays, without an entry that leads to it. -/
structure State (ι : Type) where
  threads : ι → Place
  inodes : List Cell
  table : SrcId → Option Nat
  told : Nat → Nat

/- What the calls and tests between two lock operations give: whether the table entry can be
allocated, f3_is_new_id, the key of the ID copy or a failed fstatat, st_nlink, inode.nopen
and whether the entry fits into the buffer. -/
structure World where
  memory : Bool
  isNewId : Bool
  statId : Option SrcId
  nlink : Nat
  nopen : Nat
  fits : Bool
  deriving DecidableEq, Repr

def Site.leave : Site → Place
  | .readdir dir listed => .replying dir listed
  | _ => .idle

section Steps
variable {ι : Type} [DecidableEq ι] (s : State ι) (t : ι)

def State.goto (p : Place) : State ι := {s with threads := Function.update s.threads t p}

def State.insert (key : SrcId) : State ι :=
  {s with inodes := s.inodes ++ [⟨(0,0),.fresh,0,false⟩],
          table := Function.update s.table key (some s.inodes.length)}

def State.modify (a : Nat) (f : Cell → Cell) : State ι := {s with inodes := s.inodes.modify a f}

def State.forgot (a n : Nat) : State ι := {s with told := Function.update s.told a (s.told a - n)}

def State.tell (listed : List Nat) : State ι := {s with told := fun a => s.told a + listed.count a}

def inTable (site : Site) (key : SrcId) (memory : Bool) : Option (State ι) :=
  match s.table key with
  | some a => do
      let c ← s.inodes[a]?
      some (s.goto t (if c.fd = .live then .known site a else .unknown site a key))
  | none =>
      if memory then some ((s.insert key).goto t (.unknown site s.inodes.length key))
      else some (s.goto t site.leave)

def fill (key : SrcId) (isNewId : Bool) (c : Cell) : Cell :=
  {c with src := key, nlookup := c.nlookup + 1, fd := .live, isId := c.isId || isNewId}

def back (site : Site) (a : Nat) (w : World) : Option (State ι) :=
  match site with
  | .lookup => some ((s.tell [a]).goto t .idle)
  | .unlink => some (s.goto t (if w.nlink = 1 then .unlink a else .idle))
  | .forget => none
  | .readdir dir listed =>
      some (s.goto t (if w.fits then .reading dir (a :: listed) else .forget site a 1))

def stat (site : Site) (a : Nat) (w : World) : Option (State ι) := do
  let c ← s.inodes[a]?
  if c.isId ∧ w.statId = none then some (s.goto t site.leave)
  else
    let s := s.modify a (fun c => if c.isId then {c with src := w.statId.getD c.src} else c)
    back s t site a w

def forgetting (site : Site) (a n : Nat) : Option (State ι) := do
  let c ← s.inodes[a]?
  if c.nlookup < n then none
  else
    let s := s.modify a (fun c => {c with nlookup := c.nlookup - n})
    some (s.goto t (if c.nlookup - n = 0 then .erasing site a else site.leave))

def advance (w : World) : Place → Option (State ι)
  | .inTable site key => inTable s t site key w.memory
  | .counting site a =>
      some ((s.modify a (fun c => {c with nlookup := c.nlookup + 1})).goto t (.stat site a))
  | .filling site a key => some ((s.modify a (fill key w.isNewId)).goto t (.filled site a))
  | .filled site a => some (s.goto t (.stat site a))
  | .stat site a => stat s t site a w
  | .forgetting site a n => forgetting s t site a n
  | .erase site a => some (s.goto t (.erased site a))
  | .erased site a => do
      let c ← s.inodes[a]?
      some (State.goto {s with table := Function.update s.table c.src none} t site.leave)
  | .unlinking a => do
      let c ← s.inodes[a]?
      some (s.goto t (if c.fd = .live ∧ w.nopen = 0 then .closing a else .idle))
  | .closed a => some ((s.modify a (fun c => {c with fd := .unlinked})).goto t (.unlinked a))
  | .unlinked _ => some (s.goto t .idle)
  | .replying _ listed => some ((s.tell listed).goto t .idle)
  | _ => none

end Steps

inductive Move where
  | lookup (key : SrcId)
  | unlink (key : SrcId)
  | forget (a n : Nat)
  | readdir (dir : Ref)
  | entry (key : SrcId)
  | stop
  | lock
  | go (w : World)
  deriving DecidableEq, Repr

section Step
variable {ι : Type} [DecidableEq ι] [Fintype ι]

def Told (s : State ι) : Ref → Prop
  | .root => True
  | .node a => 0 < s.told a
instance (s : State ι) : DecidablePred (Told s)
  | .root => isTrue trivial
  | .node _ => inferInstanceAs (Decidable (_ < _))

def Opens (s : State ι) : Ref → Prop
  | .root => True
  | .node a => ∃ c ∈ s.inodes[a]?, c.fd = .live
instance (s : State ι) : DecidablePred (Opens s)
  | .root => isTrue trivial
  | .node a => inferInstanceAs (Decidable (∃ c ∈ s.inodes[a]?, c.fd = .live))

/- One move of one thread. A lookup, in whichever handler, that fails before it locks
fs.mutex changes nothing here. -/
def step (s : State ι) : ι × Move → Option (State ι)
  | (t,.lookup key) => if s.threads t = .idle then some (s.goto t (.doLookup .lookup key)) else none
  | (t,.unlink key) => if s.threads t = .idle then some (s.goto t (.doLookup .unlink key)) else none
  | (t,.forget a n) =>
      if s.threads t = .idle ∧ 0 < n ∧ n ≤ s.told a then
        some ((s.forgot a n).goto t (.forget .forget a n))
      else none
  | (t,.readdir dir) =>
      if s.threads t = .idle ∧ Told s dir then some (s.goto t (.readdir dir)) else none
  | (t,.entry key) => match s.threads t with
      | .reading dir listed =>
          if Opens s dir then some (s.goto t (.doLookup (.readdir dir listed) key)) else none
      | _ => none
  | (t,.stop) => match s.threads t with
      | .reading dir listed => some (s.goto t (.replying dir listed))
      | _ => none
  | (t,.lock) => match (s.threads t).acquires with
      | some (m,p) => if Free Place.held s.threads m then some (s.goto t p) else none
      | none => none
  | (t,.go w) => advance s t w (s.threads t)

def start : State ι := ⟨fun _ => .idle,[],fun _ => none,fun _ => 0⟩

def Deadlock (s : State ι) : Prop :=
  ∃ t u r, .fs ∈ (s.threads t).held ∧ (s.threads t).waits (.inode r) ∧
    .inode r ∈ (s.threads u).held ∧ (s.threads u).waits .fs

end Step

section Invariant
variable {ι : Type}

def At (s : State ι) (a : Nat) (good : Cell → Prop) : Prop := ∃ c, s.inodes[a]? = some c ∧ good c

abbrev Built (s : State ι) (a : Nat) : Prop := At s a (fun c => c.fd ≠ .fresh)

def Known (s : State ι) : Ref → Prop
  | .root => True
  | .node a => Built s a

def Site.Fine (s : State ι) : Site → Prop
  | .readdir dir listed => Opens s dir ∧ ∀ b ∈ listed, Built s b
  | _ => True

/- What is known of the inodes of a thread. Its lock keeps the fd and the count of an inode
it has locked, and fs.mutex keeps every fd. -/
def Place.Fine (s : State ι) : Place → Prop
  | .idle => True
  | .doLookup site _ | .inTable site _ => site.Fine s
  | .known site a | .counting site a | .filled site a | .stat site a | .forget site a _
  | .forgetting site a _ | .erased site a => site.Fine s ∧ Built s a
  | .unknown site a _ | .filling site a _ => site.Fine s ∧ At s a (fun c => c.fd ≠ .live)
  | .erasing site a | .erase site a =>
      site.Fine s ∧ At s a (fun c => c.fd ≠ .fresh ∧ c.nlookup = 0)
  | .unlink a | .unlinking a | .unlinked a => Built s a
  | .closing a | .closed a => At s a (fun c => c.fd = .live)
  | .readdir dir => Known s dir
  | .reading dir listed | .replying dir listed => Known s dir ∧ ∀ b ∈ listed, Built s b

/- The lookups of inode `a` that the thread has counted, or is about to take from the count:
those it will tell the kernel of, those the kernel has forgotten, and the one of sfs_unlink,
which is told to nobody. -/
def Site.credit (a : Nat) : Site → Nat
  | .readdir _ listed => listed.count a
  | _ => 0

def Place.credit (a : Nat) : Place → Nat
  | .idle | .unlinked _ | .readdir _ => 0
  | .doLookup site _ | .inTable site _ | .known site _ | .counting site _ | .unknown site _ _
  | .filling site _ _ | .erasing site _ | .erase site _ | .erased site _ => site.credit a
  | .filled site b | .stat site b => site.credit a + [b].count a
  | .forget site b n | .forgetting site b n => site.credit a + n * [b].count a
  | .unlink b | .unlinking b | .closing b | .closed b => [b].count a
  | .reading _ listed | .replying _ listed => listed.count a

def Cell.kept (c : Cell) : Nat := if c.fd = .unlinked then 1 else 0

structure Inv [Fintype ι] (s : State ι) : Prop where
  exclusive : Exclusive Place.held s.threads
  fine : ∀ t, (s.threads t).Fine s
  told : ∀ {a}, 0 < s.told a → Built s a
  counted : ∀ {a : Nat} {c : Cell}, s.inodes[a]? = some c →
    s.told a + c.kept + total (Place.credit a) s.threads ≤ c.nlookup

theorem atMono {s : State ι} {a} {good better : Cell → Prop} (here : At s a good)
    (imp : ∀ c, good c → better c) : At s a better :=
  here.imp fun c found => ⟨found.1,imp c found.2⟩

end Invariant

section Frame
variable {ι : Type} {s s' : State ι} {t : ι}

theorem Site.leaveFine {site : Site} (fine : site.Fine s) : site.leave.Fine s := by
  cases site with
  | readdir dir listed =>
    refine ⟨?_,fine.2⟩
    cases dir with
    | root => trivial
    | node a => exact atMono fine.1 fun c live => by simp [live]
  | lookup | unlink | forget => trivial

theorem Site.leaveHeld {site : Site} : site.leave.held = site.held := by cases site <;> rfl

theorem Site.leaveCredit {site : Site} {a} : site.leave.credit a = site.credit a := by
  cases site <;> rfl

structure Keeps (s s' : State ι) (p : Place) : Prop where
  built : ∀ {a : Nat}, Built s a → Built s' a
  locked : ∀ {a : Nat} {c : Cell}, .inode (.node a) ∈ p.held → s.inodes[a]? = some c →
    ∃ c', s'.inodes[a]? = some c' ∧ c'.fd = c.fd ∧ c'.nlookup = c.nlookup
  fds : ∀ {a : Nat} {c : Cell}, .fs ∈ p.held → s.inodes[a]? = some c →
    ∃ c', s'.inodes[a]? = some c' ∧ c'.fd = c.fd

theorem Keeps.lockedAt {p : Place} {a : Nat} (good : Fd → Nat → Prop) (keeps : Keeps s s' p)
    (mine : .inode (.node a) ∈ p.held) (here : At s a (fun c => good c.fd c.nlookup)) :
    At s' a (fun c => good c.fd c.nlookup) := by
  obtain ⟨c,found,is⟩ := here
  obtain ⟨c',now,fd,count⟩ := keeps.locked mine found
  exact ⟨c',now,by simpa [fd,count] using is⟩

theorem Keeps.fdAt {p : Place} {a : Nat} (good : Fd → Prop) (keeps : Keeps s s' p) (mine : .fs ∈ p.held)
    (here : At s a (fun c => good c.fd)) : At s' a (fun c => good c.fd) := by
  obtain ⟨c,found,is⟩ := here
  obtain ⟨c',now,fd⟩ := keeps.fds mine found
  exact ⟨c',now,by simpa [fd] using is⟩

theorem Keeps.opens {p : Place} {dir} (keeps : Keeps s s' p) (mine : .inode dir ∈ p.held) (opens : Opens s dir) :
    Opens s' dir := by
  cases dir with
  | root => trivial
  | node a => exact keeps.lockedAt (fun fd _ => fd = .live) mine opens

theorem Keeps.site {p : Place} {site : Site} (keeps : Keeps s s' p) (inside : ∀ m ∈ site.held, m ∈ p.held)
    (fine : site.Fine s) : site.Fine s' := by
  cases site with
  | readdir dir listed =>
    exact ⟨keeps.opens (inside _ List.mem_cons_self) fine.1,fun b mem => keeps.built (fine.2 b mem)⟩
  | lookup | unlink | forget => trivial

theorem Keeps.known {p : Place} {dir} (keeps : Keeps s s' p) (known : Known s dir) : Known s' dir := by
  cases dir with
  | root => trivial
  | node a => exact keeps.built known

theorem Keeps.place {p : Place} (keeps : Keeps s s' p) (fine : p.Fine s) : p.Fine s' := by
  cases p with
  | idle => trivial
  | doLookup site key | inTable site key => exact keeps.site (by simp +contextual [Place.held]) fine
  | known site a | counting site a | filled site a | stat site a | forget site a n
  | forgetting site a n | erased site a =>
    exact ⟨keeps.site (by simp +contextual [Place.held]) fine.1,keeps.built fine.2⟩
  | unknown site a key | filling site a key =>
    exact ⟨keeps.site (by simp +contextual [Place.held]) fine.1,
      keeps.fdAt (fun fd => fd ≠ .live) (by simp [Place.held]) fine.2⟩
  | erasing site a | erase site a =>
    exact ⟨keeps.site (by simp +contextual [Place.held]) fine.1,
      keeps.lockedAt (fun fd n => fd ≠ .fresh ∧ n = 0) (by simp [Place.held]) fine.2⟩
  | unlink a | unlinking a | unlinked a => exact keeps.built fine
  | closing a | closed a =>
    exact keeps.lockedAt (fun fd _ => fd = .live) (by simp [Place.held]) fine
  | readdir dir => exact keeps.known fine
  | reading dir listed | replying dir listed =>
    exact ⟨keeps.known fine.1,fun b mem => keeps.built (fine.2 b mem)⟩

theorem keepsSame (same : s'.inodes = s.inodes) {p : Place} : Keeps s s' p where
  built := by simp [Built,At,same]
  locked := fun _ found => ⟨_,by rw [same]; exact found,rfl,rfl⟩
  fds := fun _ found => ⟨_,by rw [same]; exact found,rfl⟩

theorem keepsAppend {c} (more : s'.inodes = s.inodes ++ [c]) {p : Place} : Keeps s s' p := by
  have old {a : Nat} {d} (found : s.inodes[a]? = some d) : s'.inodes[a]? = some d := by
    rw [more,List.getElem?_append_left (List.getElem?_eq_some_iff.mp found).1]
    exact found
  exact ⟨fun ⟨d,found,is⟩ => ⟨d,old found,is⟩,fun _ found => ⟨_,old found,rfl,rfl⟩,
    fun _ found => ⟨_,old found,rfl⟩⟩

theorem keepsModify {a : Nat} {f : Cell → Cell}
    (exclusive : Exclusive Place.held s.threads) (mine : .inode (.node a) ∈ (s.threads t).held)
    (both : .fs ∈ (s.threads t).held ∨ ∀ c, (f c).fd = c.fd)
    (built : ∀ c, c.fd ≠ .fresh → (f c).fd ≠ .fresh) {u} (other : u ≠ t) :
    Keeps s (s.modify a f) (s.threads u) := by
  have now {b : Nat} {c} (found : s.inodes[b]? = some c) :
      (s.modify a f).inodes[b]? = some (if a = b then f c else c) := by
    rw [State.modify,List.getElem?_modify,found]
    rfl
  refine ⟨?_,?_,?_⟩
  · rintro b ⟨c,found,is⟩
    refine ⟨_,now found,?_⟩
    split
    · exact built c is
    · exact is
  · intro b c theirs found
    refine ⟨_,now found,?_⟩
    rw [if_neg fun same => other (exclusive theirs (by rw [← same]; exact mine))]
    exact ⟨rfl,rfl⟩
  · intro b c theirs found
    refine ⟨_,now found,?_⟩
    split
    · exact both.elim (fun fs => absurd (exclusive theirs fs) other) (fun same => same c)
    · rfl

theorem keepsFields {a : Nat} {f : Cell → Cell}
    (same : ∀ c, (f c).fd = c.fd ∧ (f c).nlookup = c.nlookup) {p : Place} :
    Keeps s (s.modify a f) p := by
  have now {b : Nat} {c} (found : s.inodes[b]? = some c) :
      ∃ c', (s.modify a f).inodes[b]? = some c' ∧ c'.fd = c.fd ∧ c'.nlookup = c.nlookup := by
    rw [State.modify,List.getElem?_modify,found]
    by_cases here : a = b
    · exact ⟨f c,by simp [here],same c⟩
    · exact ⟨c,by simp [here],rfl,rfl⟩
  refine ⟨?_,fun _ => now,fun _ found => ?_⟩
  · rintro b ⟨c,found,is⟩
    obtain ⟨c',cell,fd,-⟩ := now found
    exact ⟨c',cell,by simpa [fd] using is⟩
  · obtain ⟨c',cell,fd,-⟩ := now found
    exact ⟨c',cell,fd⟩

theorem modifyAt {a : Nat} {f : Cell → Cell} {good : Cell → Prop} (here : At s a (fun c => good (f c))) :
    At (s.modify a f) a good := by
  obtain ⟨c,found,is⟩ := here
  exact ⟨f c,by simp [State.modify,found],is⟩

theorem modifyMono {a b : Nat} {f : Cell → Cell} {good : Cell → Prop}
    (keeps : ∀ c, good c → good (f c)) (here : At s b good) : At (s.modify a f) b good := by
  obtain ⟨c,found,is⟩ := here
  refine ⟨if a = b then f c else c,?_,?_⟩
  · simp only [State.modify,List.getElem?_modify,found]
    split <;> rfl
  · split
    · exact keeps c is
    · exact is

theorem siteModify {site : Site} {a : Nat} {f : Cell → Cell}
    (live : ∀ c, c.fd = .live → (f c).fd = .live) (built : ∀ c, c.fd ≠ .fresh → (f c).fd ≠ .fresh)
    (fine : site.Fine s) : site.Fine (s.modify a f) := by
  cases site with
  | readdir dir listed =>
    refine ⟨?_,fun b mem => modifyMono built (fine.2 b mem)⟩
    cases dir with
    | root => trivial
    | node d => exact modifyMono live fine.1
  | lookup | unlink | forget => trivial

theorem acquired {p q : Place} {m} (next : p.acquires = some (m,q)) (fine : p.Fine s) :
    q.Fine s ∧ (∀ x ∈ q.held, x ∈ p.held ∨ x = m) ∧ ∀ a, q.credit a ≤ p.credit a := by
  cases p with
  | doLookup | known | unknown | forget | erasing | unlink | closing =>
    cases next
    refine ⟨fine,?_,fun a => Nat.le_refl _⟩
    simp +contextual [Place.held,or_comm]
  | readdir dir =>
    cases next
    refine ⟨⟨fine,by simp⟩,by simp [Place.held],fun a => by simp [Place.credit]⟩
  | _ => cases next

theorem creditBuilt {p : Place} {a} (fine : p.Fine s) (some : p.credit a ≠ 0) : Built s a := by
  have one {b} (here : Built s b) (mem : [b].count a ≠ 0) : Built s a := by
    have same : a = b := by simpa using List.count_pos_iff.mp (Nat.pos_of_ne_zero mem)
    exact same ▸ here
  have many {listed : List Nat} (each : ∀ b ∈ listed, Built s b) (mem : listed.count a ≠ 0) : Built s a :=
    each a (List.count_pos_iff.mp (Nat.pos_of_ne_zero mem))
  have atSite {site : Site} (fine : site.Fine s) (mem : site.credit a ≠ 0) : Built s a := by
    cases site with
    | readdir dir listed => exact many fine.2 mem
    | lookup | unlink | forget => exact absurd rfl mem
  cases p with
  | idle | unlinked | readdir => exact absurd rfl some
  | doLookup site | inTable site => exact atSite fine some
  | known site | counting site | unknown site | filling site | erasing site | erase site
  | erased site => exact atSite fine.1 some
  | filled site b | stat site b =>
    rcases Nat.eq_zero_or_pos (site.credit a) with none | more
    · exact one fine.2 (by simpa [Place.credit,none] using some)
    · exact atSite fine.1 (Nat.ne_of_gt more)
  | forget site b n | forgetting site b n =>
    rcases Nat.eq_zero_or_pos (site.credit a) with none | more
    · exact one fine.2 fun zero => some (by simp only [Place.credit,none,zero]; rfl)
    · exact atSite fine.1 (Nat.ne_of_gt more)
  | unlink b | unlinking b => exact one fine some
  | closing b | closed b => exact one (atMono fine fun c live => by simp [live]) some
  | reading dir listed | replying dir listed => exact many fine.2 some

theorem invSrc [Fintype ι] {a : Nat} {f : Cell → Cell} (inv : Inv s)
    (same : ∀ c, (f c).fd = c.fd ∧ (f c).nlookup = c.nlookup) : Inv (s.modify a f) where
  exclusive := inv.exclusive
  fine := fun u => (keepsFields same).place (inv.fine u)
  told := fun some => modifyMono (fun c is => by rw [(same c).1]; exact is) (inv.told some)
  counted := by
    intro b c found
    simp only [State.modify,List.getElem?_modify] at found ⊢
    obtain ⟨d,old,now⟩ := Option.map_eq_some_iff.mp found
    have before := inv.counted old
    have fields : c.fd = d.fd ∧ c.nlookup = d.nlookup := by
      split at now
      · exact now ▸ same d
      · exact now ▸ ⟨rfl,rfl⟩
    simpa only [Cell.kept,fields.1,fields.2] using before

end Frame

section Moves
variable {ι : Type} [DecidableEq ι] [Fintype ι] {s s' : State ι} {t : ι}

theorem invMove {p : Place} (inv : Inv s) (moved : s'.threads = Function.update s.threads t p)
    (taken : ∀ m ∈ p.held, m ∈ (s.threads t).held ∨ Free Place.held s.threads m)
    (keeps : ∀ u, u ≠ t → Keeps s s' (s.threads u)) (fine : p.Fine s')
    (told : ∀ {a}, 0 < s'.told a → Built s' a)
    (counted : ∀ {a : Nat} {c : Cell}, s'.inodes[a]? = some c →
      s'.told a + c.kept + total (Place.credit a) s.threads + p.credit a ≤
        c.nlookup + (s.threads t).credit a) : Inv s' where
  exclusive := by
    rw [moved]
    exact exclusiveMove inv.exclusive taken
  fine := by
    intro u
    rw [moved]
    by_cases here : u = t
    · subst here
      rw [Function.update_self]
      exact fine
    · rw [Function.update_of_ne here]
      exact (keeps u here).place (inv.fine u)
  told := told
  counted := by
    intro a c found
    have sum := totalMove (Place.credit a) s.threads t p
    have now := counted found
    rw [moved]
    omega

theorem invGoto {p : Place} (inv : Inv s) (place : p.Fine s)
    (taken : ∀ m ∈ p.held, m ∈ (s.threads t).held ∨ Free Place.held s.threads m)
    (less : ∀ a, p.credit a ≤ (s.threads t).credit a) : Inv (s.goto t p) := by
  have same {q : Place} : Keeps s (s.goto t p) q :=
    keepsSame (show (s.goto t p).inodes = s.inodes from rfl)
  refine invMove inv rfl taken (fun u _ => same) (same.place place) inv.told ?_
  intro a c found
  have old := inv.counted found
  have fewer := less a
  simp only [State.goto]
  omega

theorem invLock {m q} (inv : Inv s) (next : (s.threads t).acquires = some (m,q))
    (free : Free Place.held s.threads m) : Inv (s.goto t q) := by
  obtain ⟨fine,held,less⟩ := acquired next (inv.fine t)
  refine invGoto inv fine (fun x mem => (held x mem).imp_right ?_) less
  rintro rfl
  exact free

theorem invLeave {site : Site} (inv : Inv s) (fine : site.Fine s)
    (held : ∀ m ∈ site.held, m ∈ (s.threads t).held)
    (less : ∀ a, site.credit a ≤ (s.threads t).credit a) : Inv (s.goto t site.leave) := by
  refine invGoto inv (Site.leaveFine fine) (fun m mem => .inl (held m ?_)) fun a => ?_
  · rwa [Site.leaveHeld] at mem
  · rw [Site.leaveCredit]
    exact less a

theorem invCell {a : Nat} {f : Cell → Cell} {p : Place} (inv : Inv s)
    (keeps : ∀ u, u ≠ t → Keeps s (s.modify a f) (s.threads u)) (fine : p.Fine (s.modify a f))
    (held : ∀ m ∈ p.held, m ∈ (s.threads t).held) (built : ∀ c, c.fd ≠ .fresh → (f c).fd ≠ .fresh)
    (here : ∀ c, s.inodes[a]? = some c →
      (f c).kept + p.credit a + c.nlookup ≤ (f c).nlookup + (s.threads t).credit a + c.kept)
    (others : ∀ b, b ≠ a → p.credit b ≤ (s.threads t).credit b) :
    Inv ((s.modify a f).goto t p) := by
  have same {q : Place} : Keeps (s.modify a f) ((s.modify a f).goto t p) q :=
    keepsSame (show ((s.modify a f).goto t p).inodes = (s.modify a f).inodes from rfl)
  refine invMove inv rfl (fun m mem => .inl (held m mem)) (fun u other => ?_) (same.place fine) ?_ ?_
  · exact ⟨fun old => (keeps u other).built old,fun mine old => (keeps u other).locked mine old,
      fun mine old => (keeps u other).fds mine old⟩
  · intro b some
    obtain ⟨c,found,is⟩ := inv.told some
    refine ⟨if a = b then f c else c,?_,?_⟩
    · simp only [State.goto,State.modify,List.getElem?_modify,found]
      split <;> rfl
    · split
      · exact built c is
      · exact is
  · intro b c found
    simp only [State.goto,State.modify,List.getElem?_modify] at found ⊢
    obtain ⟨d,old,now⟩ := Option.map_eq_some_iff.mp found
    have before := inv.counted old
    by_cases at' : a = b
    · subst at'
      have change := here d old
      simp only [if_true] at now
      subst now
      omega
    · have fewer := others b (Ne.symm at')
      simp only [at',if_false] at now
      subst now
      omega

theorem invInsert {site : Site} {key} (inv : Inv s) (fine : site.Fine s)
    (held : ∀ m ∈ Mutex.fs :: site.held, m ∈ (s.threads t).held)
    (less : ∀ a, site.credit a ≤ (s.threads t).credit a) :
    Inv ((s.insert key).goto t (.unknown site s.inodes.length key)) := by
  have more {q : Place} : Keeps s ((s.insert key).goto t (.unknown site s.inodes.length key)) q :=
    keepsAppend (c := ⟨(0,0),.fresh,0,false⟩) rfl
  have nobody : total (Place.credit s.inodes.length) s.threads = 0 :=
    totalZero fun u => by
      by_contra some
      obtain ⟨c,found,-⟩ := creditBuilt (inv.fine u) some
      simp at found
  have untold : s.told s.inodes.length = 0 := by
    by_contra some
    obtain ⟨c,found,-⟩ := inv.told (Nat.pos_of_ne_zero some)
    simp at found
  refine invMove inv rfl (fun m mem => .inl (held m mem)) (fun u _ => more) ⟨?_,?_⟩
    (fun some => Keeps.built (@more .idle) (inv.told some)) ?_
  · have inside : ∀ m ∈ site.held, m ∈ (Place.doLookup site key).held := fun m mem => mem
    exact more.site inside fine
  · exact ⟨⟨(0,0),.fresh,0,false⟩,by simp [State.goto,State.insert],by simp⟩
  · intro a c found
    have fewer : (Place.unknown site s.inodes.length key).credit a ≤ (s.threads t).credit a := less a
    simp only [State.goto,State.insert] at found ⊢
    rcases Nat.lt_or_ge a s.inodes.length with old | new
    · rw [List.getElem?_append_left old] at found
      have before := inv.counted found
      omega
    · rw [List.getElem?_append_right new,List.getElem?_singleton] at found
      split at found <;> try contradiction
      rename_i zero
      cases Option.some.inj found
      obtain rfl : a = s.inodes.length := by omega
      simpa [nobody,untold,Cell.kept] using fewer

theorem invTable {site key memory} (inv : Inv s) (here : s.threads t = .inTable site key)
    (ok : inTable s t site key memory = some s') : Inv s' := by
  have fine := inv.fine t
  rw [here] at fine
  have held : ∀ m ∈ Mutex.fs :: site.held, m ∈ (s.threads t).held := by
    simp [here,Place.held]
  have same (a : Nat) : site.credit a ≤ (s.threads t).credit a := by simp [here,Place.credit]
  unfold inTable at ok
  split at ok
  · rename_i a found
    obtain ⟨c,cell,ok⟩ := Option.bind_eq_some_iff.mp ok
    cases Option.some.inj ok
    by_cases live : c.fd = .live
    · rw [if_pos live]
      exact invGoto inv ⟨fine,c,cell,by simp [live]⟩
        (fun m mem => .inl (held m (List.mem_cons_of_mem _ mem))) same
    · rw [if_neg live]
      exact invGoto inv ⟨fine,c,cell,live⟩ (fun m mem => .inl (held m mem)) same
  · split at ok
    · cases Option.some.inj ok
      exact invInsert inv fine held same
    · cases Option.some.inj ok
      exact invLeave inv fine (fun m mem => held m (List.mem_cons_of_mem _ mem)) same

theorem countOther {a b : Nat} (other : b ≠ a) : [a].count b = 0 := by
  simp [Ne.symm other]

theorem invCounting {site a} (inv : Inv s) (here : s.threads t = .counting site a) :
    Inv ((s.modify a (fun c => {c with nlookup := c.nlookup + 1})).goto t (.stat site a)) := by
  have fine := inv.fine t
  rw [here] at fine
  refine invCell inv (fun u other => ?_) ⟨?_,?_⟩ ?_ (fun _ => id) ?_ ?_
  · refine keepsModify inv.exclusive ?_ (.inr fun c => ?_) (fun c fd => ?_) other
    · simp [here,Place.held]
    · rfl
    · exact fd
  · exact siteModify (fun _ => id) (fun _ => id) fine.1
  · exact modifyMono (fun _ => id) fine.2
  · simp +contextual [here,Place.held]
  · intro c _
    simp only [here,Place.credit,Cell.kept,List.count_singleton_self]
    omega
  · intro b other
    simp only [here,Place.credit,countOther other]
    omega

theorem invFilling {site a key isNewId} (inv : Inv s) (here : s.threads t = .filling site a key) :
    Inv ((s.modify a (fill key isNewId)).goto t (.filled site a)) := by
  have fine := inv.fine t
  rw [here] at fine
  refine invCell inv (fun u other => ?_) ⟨?_,?_⟩ ?_ (fun _ _ => by simp [fill]) ?_ ?_
  · exact keepsModify inv.exclusive (by simp [here,Place.held]) (.inl (by simp [here,Place.held]))
      (fun _ _ => by simp [fill]) other
  · exact siteModify (fun _ _ => rfl) (fun _ _ => by simp [fill]) fine.1
  · exact modifyAt (atMono fine.2 fun _ _ => by simp [fill])
  · simp +contextual [here,Place.held]
  · intro c _
    simp only [here,Place.credit,Cell.kept,fill,List.count_singleton_self]
    simp
    omega
  · intro b other
    simp only [here,Place.credit,countOther other]
    omega

theorem invForgetting {site a n} (inv : Inv s) (here : s.threads t = .forgetting site a n)
    (ok : forgetting s t site a n = some s') : Inv s' := by
  have fine := inv.fine t
  rw [here] at fine
  obtain ⟨c,found,ok⟩ := Option.bind_eq_some_iff.mp ok
  split at ok <;> try contradiction
  rename_i enough
  cases Option.some.inj ok
  have keeps (u) (other : u ≠ t) : Keeps s (s.modify a fun c => {c with nlookup := c.nlookup - n})
      (s.threads u) := by
    refine keepsModify inv.exclusive ?_ (.inr fun c => ?_) (fun c fd => ?_) other
    · simp [here,Place.held]
    · rfl
    · exact fd
  have site' := siteModify (a := a) (f := fun c => {c with nlookup := c.nlookup - n})
    (fun _ => id) (fun _ => id) fine.1
  have own (d : Cell) (cell : s.inodes[a]? = some d) (b : Nat) :
      Cell.kept {d with nlookup := d.nlookup - n} + site.credit b + d.nlookup ≤
        d.nlookup - n + (site.credit b + n * [b].count b) + d.kept := by
    obtain rfl := Option.some.inj (found.symm.trans cell)
    simp only [Cell.kept,List.count_singleton_self]
    omega
  split
  · rename_i zero
    refine invCell inv keeps ⟨site',?_⟩ ?_ (fun _ => id) ?_ ?_
    · refine modifyAt ⟨c,found,?_,zero⟩
      obtain ⟨d,cell,is⟩ := fine.2
      obtain rfl := Option.some.inj (found.symm.trans cell)
      exact is
    · simp +contextual [here,Place.held]
    · intro d cell
      simpa only [here,Place.credit] using own d cell a
    · intro b other
      simp [here,Place.credit]
  · refine invCell inv keeps (Site.leaveFine site') ?_ (fun _ => id) ?_ ?_
    · rw [Site.leaveHeld]
      simp +contextual [here,Place.held]
    · intro d cell
      rw [Site.leaveCredit]
      simpa only [here,Place.credit] using own d cell a
    · intro b other
      rw [Site.leaveCredit]
      simp [here,Place.credit]

theorem invClosed {a} (inv : Inv s) (here : s.threads t = .closed a) :
    Inv ((s.modify a (fun c => {c with fd := .unlinked})).goto t (.unlinked a)) := by
  have fine := inv.fine t
  rw [here] at fine
  refine invCell inv (fun u other => ?_) ?_ ?_ (fun _ _ => by simp) ?_ ?_
  · exact keepsModify inv.exclusive (by simp [here,Place.held]) (.inl (by simp [here,Place.held]))
      (fun _ _ => by simp) other
  · exact modifyAt (atMono fine fun _ _ => by simp)
  · simp [here,Place.held]
  · intro c found
    obtain ⟨d,cell,live⟩ := fine
    obtain rfl := Option.some.inj (found.symm.trans cell)
    simp only [here,Place.credit,Cell.kept,List.count_singleton_self]
    simp
    omega
  · intro b other
    simp [Place.credit]

theorem invTell {listed : List Nat} {p : Place} (inv : Inv s) (fine : p.Fine s)
    (held : ∀ m ∈ p.held, m ∈ (s.threads t).held) (built : ∀ a ∈ listed, Built s a)
    (counted : ∀ a, p.credit a + listed.count a ≤ (s.threads t).credit a) :
    Inv ((s.tell listed).goto t p) := by
  have same {q : Place} : Keeps s ((s.tell listed).goto t p) q :=
    keepsSame (show ((s.tell listed).goto t p).inodes = s.inodes from rfl)
  refine invMove inv rfl (fun m mem => .inl (held m mem)) (fun u _ => same) (same.place fine) ?_ ?_
  · intro a some
    simp only [State.goto,State.tell] at some
    rcases Nat.eq_zero_or_pos (s.told a) with none | old
    · exact built a (List.count_pos_iff.mp (by omega))
    · exact inv.told old
  · intro a c found
    have before := inv.counted found
    have mine := counted a
    simp only [State.goto,State.tell]
    omega

theorem invReturn {site a w} (inv : Inv s) (here : s.threads t = .stat site a)
    (ok : back s t site a w = some s') : Inv s' := by
  have fine := inv.fine t
  rw [here] at fine
  have own (b : Nat) : (s.threads t).credit b = site.credit b + [a].count b := by
    simp only [here,Place.credit]
  cases site with
  | lookup =>
    cases Option.some.inj ok
    refine invTell inv trivial (by simp [Place.held]) (fun b mem => ?_) fun b => ?_
    · rw [List.mem_singleton.mp mem]
      exact fine.2
    · rw [own]
      simp [Place.credit]
  | unlink =>
    cases Option.some.inj ok
    split
    · exact invGoto inv fine.2 (by simp [Place.held]) fun b => by rw [own]; simp [Place.credit]
    · exact invGoto inv trivial (by simp [Place.held]) fun b => by simp [Place.credit]
  | forget => cases ok
  | readdir dir listed =>
    cases Option.some.inj ok
    split
    · refine invGoto inv ⟨(Site.leaveFine fine.1).1,?_⟩ (by simp [Place.held,here,Site.held]) fun b => ?_
      · intro b mem
        rcases List.mem_cons.mp mem with rfl | mem
        · exact fine.2
        · exact fine.1.2 b mem
      · rw [own]
        simp only [Place.credit,Site.credit,List.count_cons,List.count_nil]
        omega
    · refine invGoto inv fine (by simp +contextual [Place.held,here]) fun b => ?_
      rw [own]
      simp [Place.credit]

theorem invStat {site a w} (inv : Inv s) (here : s.threads t = .stat site a)
    (ok : stat s t site a w = some s') : Inv s' := by
  have fine := inv.fine t
  rw [here] at fine
  obtain ⟨c,found,ok⟩ := Option.bind_eq_some_iff.mp ok
  split at ok
  · cases Option.some.inj ok
    refine invLeave inv fine.1 (by simp [here,Place.held]) fun b => ?_
    simp only [here,Place.credit]
    omega
  · refine invReturn (invSrc inv fun c => ?_) here ok
    split <;> exact ⟨rfl,rfl⟩

theorem invAdvance {w} (inv : Inv s) (ok : advance s t w (s.threads t) = some s') : Inv s' := by
  generalize here : s.threads t = p at ok
  have fine := inv.fine t
  rw [here] at fine
  cases p with
  | inTable site key => exact invTable inv here ok
  | counting site a =>
    cases Option.some.inj ok
    exact invCounting inv here
  | filling site a key =>
    cases Option.some.inj ok
    exact invFilling inv here
  | filled site a =>
    cases Option.some.inj ok
    exact invGoto inv fine (by simp +contextual [here,Place.held]) fun b => by simp [here,Place.credit]
  | stat site a => exact invStat inv here ok
  | forgetting site a n => exact invForgetting inv here ok
  | erase site a =>
    cases Option.some.inj ok
    exact invGoto inv ⟨fine.1,atMono fine.2 fun _ => And.left⟩ (by simp +contextual [here,Place.held])
      fun b => by simp [here,Place.credit]
  | erased site a =>
    obtain ⟨c,found,ok⟩ := Option.bind_eq_some_iff.mp ok
    cases Option.some.inj ok
    have without : Inv {s with table := Function.update s.table c.src none} :=
      ⟨inv.exclusive,fun u => (keepsSame rfl).place (inv.fine u),inv.told,inv.counted⟩
    have fine' := without.fine t
    rw [show State.threads _ t = _ from here] at fine'
    exact invLeave without fine'.1 (by simp +contextual [here,Place.held]) fun b => by
      simp [here,Place.credit]
  | unlinking a =>
    obtain ⟨c,found,ok⟩ := Option.bind_eq_some_iff.mp ok
    cases Option.some.inj ok
    split
    · rename_i closes
      exact invGoto inv ⟨c,found,closes.1⟩ (by simp [here,Place.held]) fun b => by
        simp [here,Place.credit]
    · exact invGoto inv trivial (by simp [Place.held]) fun b => by simp [Place.credit]
  | closed a =>
    cases Option.some.inj ok
    exact invClosed inv here
  | unlinked a =>
    cases Option.some.inj ok
    exact invGoto inv trivial (by simp [Place.held]) fun b => by simp [Place.credit]
  | replying dir listed =>
    cases Option.some.inj ok
    exact invTell inv trivial (by simp [Place.held]) fine.2 fun b => by simp [here,Place.credit]
  | _ => cases ok

theorem invForget {a n : Nat} (inv : Inv s) (here : s.threads t = .idle) (some : 0 < n)
    (enough : n ≤ s.told a) :
    Inv ((s.forgot a n).goto t (.forget .forget a n)) := by
  have same {q : Place} : Keeps s ((s.forgot a n).goto t (.forget .forget a n)) q :=
    keepsSame (show ((s.forgot a n).goto t (.forget .forget a n)).inodes = s.inodes from rfl)
  have fewer (b : Nat) : (s.forgot a n).told b + n * [a].count b = s.told b := by
    by_cases at' : b = a
    · subst at'
      simp only [State.forgot,Function.update_self,List.count_singleton_self]
      omega
    · simp [State.forgot,Function.update_of_ne at',countOther at']
  refine invMove inv rfl (by simp [Place.held,Site.held]) (fun u _ => same)
    ⟨trivial,inv.told (by omega)⟩ ?_ ?_
  · intro b more
    have less := fewer b
    have more : 0 < (s.forgot a n).told b := more
    exact inv.told (by omega)
  · intro b c found
    have before := inv.counted found
    have less := fewer b
    simp only [here,State.goto,Place.credit,Site.credit]
    omega

theorem invStep {move} (inv : Inv s) (ok : step s (t,move) = some s') : Inv s' := by
  have fine := inv.fine t
  cases move with
  | lookup key | unlink key =>
    simp only [step] at ok
    split at ok <;> try contradiction
    cases Option.some.inj ok
    exact invGoto inv trivial (by simp [Place.held,Site.held]) fun b => by simp [Place.credit,Site.credit]
  | forget a n =>
    simp only [step] at ok
    split at ok <;> try contradiction
    rename_i may
    cases Option.some.inj ok
    exact invForget inv may.1 may.2.1 may.2.2
  | readdir dir =>
    simp only [step] at ok
    split at ok <;> try contradiction
    rename_i may
    cases Option.some.inj ok
    refine invGoto inv ?_ (by simp [Place.held]) fun b => by simp [Place.credit]
    cases dir with
    | root => trivial
    | node a => exact inv.told may.2
  | entry key =>
    simp only [step] at ok
    split at ok <;> try contradiction
    rename_i dir listed here
    split at ok <;> try contradiction
    rename_i opens
    cases Option.some.inj ok
    rw [here] at fine
    exact invGoto inv ⟨opens,fine.2⟩ (by simp [here,Place.held,Site.held]) fun b => by
      simp [here,Place.credit,Site.credit]
  | stop =>
    simp only [step] at ok
    split at ok <;> try contradiction
    rename_i dir listed here
    cases Option.some.inj ok
    rw [here] at fine
    exact invGoto inv fine (by simp [here,Place.held]) fun b => by simp [here,Place.credit]
  | lock =>
    simp only [step] at ok
    split at ok <;> try contradiction
    rename_i m p next
    split at ok <;> try contradiction
    rename_i free
    cases Option.some.inj ok
    exact invLock inv next free
  | go w => exact invAdvance inv ok

end Moves

section Order
variable {ι : Type} {s : State ι}

theorem Site.heldInode {site : Site} {m} (mem : m ∈ site.held) :
    ∃ dir listed, site = .readdir dir listed ∧ m = .inode dir := by
  cases site with
  | readdir dir listed => exact ⟨dir,listed,rfl,List.mem_singleton.mp mem⟩
  | lookup | unlink | forget => cases mem

theorem Site.heldNotFs {site : Site} : .fs ∉ site.held := by
  intro mem
  obtain ⟨dir,listed,-,wrong⟩ := heldInode mem
  cases wrong

theorem waitsUnder {p : Place} {r} (fs : .fs ∈ p.held) (waiting : p.waits (.inode r)) :
    ∃ site a key, p = .unknown site a key ∧ r = .node a := by
  cases p with
  | unknown site a key => exact ⟨site,a,key,rfl,by simpa [Place.waits,Place.acquires] using waiting.symm⟩
  | known site a | forget site a n => exact absurd fs Site.heldNotFs
  | unlink a | readdir dir => cases fs
  | _ => simp [Place.waits,Place.acquires] at waiting

theorem Site.heldLive {site : Site} {a} (fine : site.Fine s) (mem : .inode (.node a) ∈ site.held) :
    At s a (fun c => c.fd = .live) := by
  obtain ⟨dir,listed,rfl,same⟩ := heldInode mem
  cases same
  exact fine.1

theorem heldWaiting {p : Place} {a} (fine : p.Fine s) (mine : .inode (.node a) ∈ p.held)
    (waiting : p.waits .fs) : At s a (fun c => c.fd = .live ∨ c.fd ≠ .fresh ∧ c.nlookup = 0) := by
  cases p with
  | doLookup site key => exact atMono (Site.heldLive fine mine) fun _ => .inl
  | erasing site b =>
    rcases List.mem_cons.mp mine with same | inside
    · cases same
      exact atMono fine.2 fun _ => .inr
    · exact atMono (Site.heldLive fine.1 inside) fun _ => .inl
  | closing b =>
    cases List.mem_singleton.mp mine
    exact atMono fine fun _ => .inl
  | _ => simp [Place.waits,Place.acquires] at waiting

/- The inode that is waited for under fs.mutex is not live, and one that sfs_unlink has closed
keeps a lookup, so that it is never the last that is taken. -/
theorem invDeadlock [Fintype ι] (inv : Inv s) : ¬ Deadlock s := by
  rintro ⟨t,u,r,fs,waiting,theirs,back⟩
  obtain ⟨site,a,key,here,rfl⟩ := waitsUnder fs waiting
  have mine := inv.fine t
  rw [here] at mine
  obtain ⟨c,found,notLive⟩ := mine.2
  obtain ⟨d,cell,state⟩ := heldWaiting (inv.fine u) theirs back
  obtain rfl := Option.some.inj (found.symm.trans cell)
  rcases state with live | ⟨built,zero⟩
  · exact notLive live
  · have closed : c.fd = .unlinked := by
      cases fd : c.fd with
      | fresh => exact absurd fd built
      | live => exact absurd fd notLive
      | unlinked => rfl
    have counted := inv.counted found
    simp only [Cell.kept,if_pos closed] at counted
    omega

/- A thread that can get at an inode: it holds its mutex, waits for it, or has counted a lookup of it. -/
def Place.reaches (p : Place) (a : Nat) : Prop :=
  .inode (.node a) ∈ p.held ∨ p.waits (.inode (.node a)) ∨ p.credit a ≠ 0
instance (p a) : Decidable (Place.reaches p a) := by unfold Place.reaches; infer_instance

def Reachable (s : State ι) (t : ι) : Ref → Prop
  | .root => True
  | .node a => 0 < s.told a ∨ ∃ u, u ≠ t ∧ (s.threads u).reaches a
instance [DecidableEq ι] [Fintype ι] (s : State ι) (t : ι) : DecidablePred (Reachable s t)
  | .root => isTrue trivial
  | .node a => inferInstanceAs (Decidable (_ ∨ ∃ u, u ≠ t ∧ (s.threads u).reaches a))

def Orderly (s : State ι) : Prop :=
  ∀ t r, .fs ∈ (s.threads t).held → (s.threads t).waits (.inode r) → ¬ Reachable s t r

-- No lookup goes on with the entry of a closed inode that others can reach.
def Unshared (s : State ι) : ι × Move → Prop
  | (t,.go _) => match s.threads t with
      | .inTable _ key => ∀ a ∈ s.table key, ∀ c ∈ s.inodes[a]?, c.fd = .unlinked → ¬ Reachable s t (.node a)
      | _ => True
  | _ => True
instance [DecidableEq ι] [Fintype ι] (s : State ι) : DecidablePred (Unshared s) := by
  rintro ⟨t,move⟩
  unfold Unshared
  split
  · split <;> infer_instance
  · infer_instance

theorem heldBuilt {p : Place} {a} (fine : p.Fine s) (free : .fs ∉ p.held) (mine : .inode (.node a) ∈ p.held) :
    Built s a := by
  have live {site : Site} (fine : site.Fine s) (mem : .inode (.node a) ∈ site.held) : Built s a :=
    atMono (Site.heldLive fine mem) fun c live => by simp [live]
  cases p with
  | doLookup site => exact live fine mine
  | known site | stat site | forget site => exact live fine.1 mine
  | counting site b | filled site b | forgetting site b =>
    rcases List.mem_cons.mp mine with same | inside
    · cases same
      exact fine.2
    · exact live fine.1 inside
  | erasing site b =>
    rcases List.mem_cons.mp mine with same | inside
    · cases same
      exact atMono fine.2 fun _ => And.left
    · exact live fine.1 inside
  | unlinking b | unlinked b =>
    cases List.mem_singleton.mp mine
    exact fine
  | closing b =>
    cases List.mem_singleton.mp mine
    exact atMono fine fun c live => by simp [live]
  | reading dir listed | replying dir listed =>
    cases List.mem_singleton.mp mine
    exact fine.1
  | idle | unlink | readdir => cases mine
  | _ => exact absurd (by simp [Place.held]) free

theorem waitsBuilt {p : Place} {a} (fine : p.Fine s) (free : .fs ∉ p.held) (waiting : p.waits (.inode (.node a))) :
    Built s a := by
  cases p with
  | known site b | forget site b =>
    have same : b = a := by simpa [Place.waits,Place.acquires] using waiting
    exact same ▸ fine.2
  | unlink b =>
    have same : b = a := by simpa [Place.waits,Place.acquires] using waiting
    exact same ▸ fine
  | readdir dir =>
    have same : dir = .node a := by simpa [Place.waits,Place.acquires] using waiting
    subst same
    exact fine
  | unknown => exact absurd (by simp [Place.held]) free
  | _ => simp [Place.waits,Place.acquires] at waiting

-- A new entry is in the hands of the thread that made it.
theorem freshUnreached [Fintype ι] {t : ι} {a : Nat} {c : Cell} (inv : Inv s) (mine : .fs ∈ (s.threads t).held)
    (cell : s.inodes[a]? = some c) (fresh : c.fd = .fresh) : ¬ Reachable s t (.node a) := by
  have unbuilt : ¬ Built s a := by
    rintro ⟨d,found,built⟩
    cases cell.symm.trans found
    exact built fresh
  rintro (told | ⟨u,other,held | waiting | credit⟩)
  · exact unbuilt (inv.told told)
  · exact unbuilt (heldBuilt (inv.fine u) (fun fs => other (inv.exclusive fs mine)) held)
  · exact unbuilt (waitsBuilt (inv.fine u) (fun fs => other (inv.exclusive fs mine)) waiting)
  · exact unbuilt (creditBuilt (inv.fine u) credit)

/- What a step without fs.mutex adds to what its thread reaches, the kernel has been told of; and what a step
tells the kernel of, it has reached. Only the look into the table leads to the lock of an inode under fs.mutex. -/
structure Spreads (s s' : State ι) (p q : Place) : Prop where
  reach : ∀ {a}, .fs ∉ p.held → q.reaches a → p.reaches a ∨ 0 < s.told a
  told : ∀ {a}, 0 < s'.told a → 0 < s.told a ∨ p.reaches a
  looked : ∀ {site a key}, q = .unknown site a key → ∃ before key, p = .inTable before key

theorem withinSpreads {s' : State ι} {p q : Place} (told : s'.told = s.told) (within : ∀ {a}, q.reaches a → p.reaches a)
    (plain : ∀ {site a key}, q ≠ .unknown site a key) : Spreads s s' p q where
  reach _ reaches := .inl (within reaches)
  told now := .inl (told ▸ now)
  looked wrong := absurd wrong plain

theorem idleSpreads {s' : State ι} {p : Place} (told : ∀ {a}, 0 < s'.told a → 0 < s.told a ∨ p.reaches a) :
    Spreads s s' p .idle where
  reach := by simp [Place.reaches,Place.held,Place.waits,Place.acquires,Place.credit]
  told := told
  looked wrong := by cases wrong

theorem acquiredReach {p q : Place} {m a} (next : p.acquires = some (m,q)) (fine : p.Fine s)
    (reaches : q.reaches a) : p.reaches a := by
  obtain ⟨-,holds,less⟩ := acquired next fine
  have rest : q.acquires = none := by cases p <;> cases next <;> rfl
  rcases reaches with held | waiting | credit
  · rcases holds _ held with before | rfl
    · exact .inl before
    · exact .inr (.inl (by simp [Place.waits,next]))
  · simp [Place.waits,rest] at waiting
  · have fewer := less a
    exact .inr (.inr (by omega))

theorem leaveReach {site : Site} {a} (reaches : site.leave.reaches a) :
    .inode (.node a) ∈ site.held ∨ site.credit a ≠ 0 := by
  rcases reaches with held | waiting | credit
  · rw [Site.leaveHeld] at held
    exact .inl held
  · cases site <;> simp [Place.waits,Place.acquires,Site.leave] at waiting
  · rw [Site.leaveCredit] at credit
    exact .inr credit

theorem Site.leaveNotUnknown {site other : Site} {a key} : site.leave ≠ .unknown other a key := by
  cases site <;> simp [Site.leave]

theorem leaveSpreads {s' : State ι} {site : Site} {p : Place} (told : s'.told = s.told) (held : ∀ m ∈ site.held, m ∈ p.held)
    (credit : ∀ a, site.credit a ≤ p.credit a) : Spreads s s' p site.leave := by
  refine withinSpreads told (fun {a} reaches => ?_) Site.leaveNotUnknown
  rcases leaveReach reaches with mine | counted
  · exact .inl (held _ mine)
  · have less := credit a
    exact .inr (.inr (by omega))

theorem statSpreads {s' : State ι} {site : Site} {p : Place} {b} (told : s'.told = s.told)
    (held : ∀ m ∈ site.held, m ∈ p.held) (credit : ∀ a, site.credit a ≤ p.credit a) (own : p.reaches b) :
    Spreads s s' p (.stat site b) := by
  refine withinSpreads told (fun {a} reaches => ?_) (by simp)
  rcases reaches with mine | waiting | counted
  · exact .inl (held _ mine)
  · simp [Place.waits,Place.acquires] at waiting
  · by_cases same : a = b
    · exact same ▸ own
    · have less := credit a
      simp only [Place.credit,countOther same] at counted
      exact .inr (.inr (by omega))

theorem backSpreads [DecidableEq ι] {t : ι} {w : World} {site : Site} {b} {s' : State ι}
    (ok : back s t site b w = some s') :
    ∃ q, s'.threads = Function.update s.threads t q ∧ Spreads s s' (.stat site b) q := by
  have mine : (Place.stat site b).credit b ≠ 0 := by simp [Place.credit]
  cases site with
  | lookup =>
    cases Option.some.inj ok
    refine ⟨_,rfl,idleSpreads fun {a} told => ?_⟩
    simp only [State.goto,State.tell] at told
    by_cases counted : [b].count a = 0
    · exact .inl (by omega)
    · exact .inr (.inr (.inr (by simpa [Place.credit,Site.credit] using counted)))
  | unlink =>
    cases Option.some.inj ok
    refine ⟨_,rfl,?_⟩
    split
    · refine withinSpreads rfl (fun {a} reaches => ?_) (by simp)
      by_cases same : a = b
      · exact .inr (.inr (same ▸ mine))
      · simp [Place.reaches,Place.held,Place.waits,Place.acquires,Place.credit,Ne.symm same] at reaches
    · exact idleSpreads fun told => .inl told
  | forget => cases ok
  | readdir dir listed =>
    cases Option.some.inj ok
    refine ⟨_,rfl,withinSpreads rfl (fun {a} reaches => ?_) (by split <;> simp)⟩
    by_cases same : a = b
    · exact .inr (.inr (same ▸ mine))
    · split at reaches <;>
        simpa [Place.reaches,Place.held,Place.waits,Place.acquires,Place.credit,Site.held,Site.credit,same,
          Ne.symm same] using reaches

theorem advanceSpreads [DecidableEq ι] {t : ι} {w : World} {s' : State ι} {p : Place}
    (ok : advance s t w p = some s') :
    ∃ q, s'.threads = Function.update s.threads t q ∧ Spreads s s' p q := by
  cases p with
  | counting site b =>
    cases Option.some.inj ok
    exact ⟨_,rfl,statSpreads rfl (fun m mem => List.mem_cons_of_mem _ mem) (fun _ => le_rfl) (.inl List.mem_cons_self)⟩
  | filled site b =>
    cases Option.some.inj ok
    exact ⟨_,rfl,statSpreads rfl (fun m mem => List.mem_cons_of_mem _ mem) (fun _ => Nat.le_add_right _ _)
      (.inl List.mem_cons_self)⟩
  | stat site b =>
    obtain ⟨c,-,ok⟩ := Option.bind_eq_some_iff.mp ok
    split at ok
    · cases Option.some.inj ok
      exact ⟨_,rfl,leaveSpreads rfl (fun m mem => mem) fun _ => Nat.le_add_right _ _⟩
    · obtain ⟨q,moved,spreads⟩ := backSpreads ok
      exact ⟨q,moved,spreads.reach,spreads.told,spreads.looked⟩
  | forgetting site b n =>
    obtain ⟨c,-,ok⟩ := Option.bind_eq_some_iff.mp ok
    split at ok <;> try contradiction
    cases Option.some.inj ok
    refine ⟨_,rfl,?_⟩
    split
    · refine withinSpreads rfl (fun {a} reaches => ?_) (by simp)
      rcases reaches with held | waiting | credit
      · exact .inl held
      · simp [Place.waits,Place.acquires] at waiting
      · simp only [Place.credit] at credit
        exact .inr (.inr (by simp only [Place.credit]; omega))
    · exact leaveSpreads rfl (fun m mem => List.mem_cons_of_mem _ mem) fun _ => Nat.le_add_right _ _
  | unlinking b =>
    obtain ⟨c,-,ok⟩ := Option.bind_eq_some_iff.mp ok
    cases Option.some.inj ok
    refine ⟨_,rfl,?_⟩
    split
    · refine withinSpreads rfl (fun reaches => ?_) (by simp)
      simpa [Place.reaches,Place.held,Place.waits,Place.acquires,Place.credit] using reaches
    · exact idleSpreads fun told => .inl told
  | unlinked b =>
    cases Option.some.inj ok
    exact ⟨_,rfl,idleSpreads fun told => .inl told⟩
  | replying dir listed =>
    cases Option.some.inj ok
    refine ⟨_,rfl,idleSpreads fun {a} told => ?_⟩
    simp only [State.goto,State.tell] at told
    by_cases counted : listed.count a = 0
    · exact .inl (by omega)
    · exact .inr (.inr (.inr counted))
  | filling | erase | closed =>
    cases Option.some.inj ok
    exact ⟨_,rfl,fun free => absurd (by simp [Place.held]) free,fun told => .inl told,by simp⟩
  | erased site b =>
    obtain ⟨c,-,ok⟩ := Option.bind_eq_some_iff.mp ok
    cases Option.some.inj ok
    exact ⟨_,rfl,leaveSpreads rfl (fun m mem => List.mem_cons_of_mem _ mem) fun _ => le_rfl⟩
  | inTable site key =>
    simp only [advance,inTable] at ok
    split at ok
    · obtain ⟨c,-,ok⟩ := Option.bind_eq_some_iff.mp ok
      cases Option.some.inj ok
      exact ⟨_,rfl,fun free => absurd List.mem_cons_self free,fun told => .inl told,fun _ => ⟨site,key,rfl⟩⟩
    · split at ok <;> cases Option.some.inj ok <;>
        exact ⟨_,rfl,fun free => absurd List.mem_cons_self free,fun told => .inl told,fun _ => ⟨site,key,rfl⟩⟩
  | _ => cases ok

theorem stepSpreads [DecidableEq ι] [Fintype ι] {t : ι} {move} {s' : State ι} (fine : (s.threads t).Fine s)
    (ok : step s (t,move) = some s') :
    ∃ q, s'.threads = Function.update s.threads t q ∧ Spreads s s' (s.threads t) q := by
  cases move with
  | lookup key | unlink key =>
    simp only [step] at ok
    split at ok <;> try contradiction
    cases Option.some.inj ok
    refine ⟨_,rfl,withinSpreads rfl (fun reaches => ?_) (by simp)⟩
    simp [Place.reaches,Place.held,Place.waits,Place.acquires,Place.credit,Site.held,Site.credit] at reaches
  | forget b n =>
    simp only [step] at ok
    split at ok <;> try contradiction
    rename_i may
    cases Option.some.inj ok
    refine ⟨_,rfl,fun {a} _ reaches => .inr ?_,fun {a} told => .inl ?_,by simp⟩
    · have same : b = a := by
        by_contra other
        simp [Place.reaches,Place.held,Place.waits,Place.acquires,Place.credit,Site.held,Site.credit,other] at reaches
      subst same
      omega
    · simp only [State.goto,State.forgot] at told
      by_cases same : a = b
      · subst same
        rw [Function.update_self] at told
        omega
      · rwa [Function.update_of_ne same] at told
  | readdir dir =>
    simp only [step] at ok
    split at ok <;> try contradiction
    rename_i may
    cases Option.some.inj ok
    refine ⟨_,rfl,fun {a} _ reaches => .inr ?_,fun told => .inl told,by simp⟩
    have same : dir = .node a := by
      simpa [Place.reaches,Place.held,Place.waits,Place.acquires,Place.credit] using reaches
    subst same
    exact may.2
  | entry key =>
    simp only [step] at ok
    split at ok <;> try contradiction
    rename_i dir listed here
    split at ok <;> try contradiction
    cases Option.some.inj ok
    refine ⟨_,rfl,withinSpreads rfl (fun reaches => ?_) (by simp)⟩
    simpa [here,Place.reaches,Place.held,Place.waits,Place.acquires,Place.credit,Site.held,Site.credit] using reaches
  | stop =>
    simp only [step] at ok
    split at ok <;> try contradiction
    rename_i dir listed here
    cases Option.some.inj ok
    refine ⟨_,rfl,withinSpreads rfl (fun reaches => ?_) (by simp)⟩
    simpa [here,Place.reaches,Place.held,Place.waits,Place.acquires,Place.credit] using reaches
  | lock =>
    simp only [step] at ok
    split at ok <;> try contradiction
    rename_i m q next
    split at ok <;> try contradiction
    cases Option.some.inj ok
    refine ⟨q,rfl,withinSpreads rfl (acquiredReach next fine) ?_⟩
    rintro site a key rfl
    cases here : s.threads t <;> rw [here] at next <;> cases next
  | go w => exact advanceSpreads ok

theorem reachableGoto [DecidableEq ι] {t : ι} {q : Place} {r} : Reachable (s.goto t q) t r ↔ Reachable s t r := by
  cases r with
  | root => rfl
  | node a =>
    have kept (u : ι) : (u ≠ t ∧ ((s.goto t q).threads u).reaches a) ↔ u ≠ t ∧ (s.threads u).reaches a :=
      and_congr_right fun other => by simp only [State.goto,Function.update_of_ne other]
    exact or_congr Iff.rfl (exists_congr kept)

theorem sharedBreaks [DecidableEq ι] [Fintype ι] {t : ι} {move} {s' : State ι} (ok : step s (t,move) = some s')
    (shared : ¬ Unshared s (t,move)) : ¬ Orderly s' := by
  unfold Unshared at shared
  split at shared <;> try exact absurd trivial shared
  rename_i t w same
  cases same
  split at shared <;> try exact absurd trivial shared
  rename_i site key here
  push Not at shared
  obtain ⟨a,entry,c,cell,closed,reach⟩ := shared
  have next : s' = s.goto t (.unknown site a key) := by
    simp only [step,here,advance,inTable,Option.mem_def.mp entry,Option.mem_def.mp cell] at ok
    rw [← Option.some.inj ok,if_neg (by simp [closed])]
  subst next
  intro orderly
  refine orderly t (.node a) ?_ ?_ (reachableGoto.mpr reach)
  · simp [State.goto,Place.held]
  · simp [State.goto,Place.waits,Place.acquires]

theorem arrivedOrderly [DecidableEq ι] [Fintype ι] {t : ι} {move} {s' : State ι} {site a key} (inv : Inv s)
    (unshared : Unshared s (t,move)) (ok : step s (t,move) = some s') (there : s'.threads t = .unknown site a key) :
    ¬ Reachable s' t (.node a) := by
  have after : Inv s' := invStep inv ok
  have mine : .fs ∈ (s'.threads t).held := by simp [there,Place.held]
  obtain ⟨q,moved,spreads⟩ := stepSpreads (inv.fine t) ok
  have arrived : s'.threads t = q := by rw [moved,Function.update_self]
  obtain ⟨before,key,here⟩ := spreads.looked (arrived.symm.trans there)
  obtain ⟨w,rfl,looked⟩ : ∃ w, move = .go w ∧ inTable s t before key w.memory = some s' := by
    cases move with
    | go w => exact ⟨w,rfl,by rwa [step,here] at ok⟩
    | _ => simp [step,here,Place.acquires] at ok
  unfold inTable at looked
  split at looked
  · rename_i b entry
    obtain ⟨c,cell,looked⟩ := Option.bind_eq_some_iff.mp looked
    cases Option.some.inj looked
    simp only [State.goto,Function.update_self] at there
    split at there <;> cases there
    by_cases fresh : c.fd = .fresh
    · exact freshUnreached after mine cell fresh
    · have fd : c.fd = .unlinked := by cases fd : c.fd <;> simp_all
      simp only [Unshared,here] at unshared
      exact fun reach => unshared a entry c cell fd (reachableGoto.mp reach)
  · split at looked
    · cases Option.some.inj looked
      simp only [State.goto,Function.update_self] at there
      cases there
      exact freshUnreached after mine (List.getElem?_concat_length ..) rfl
    · cases Option.some.inj looked
      exact absurd ((Function.update_self ..).symm.trans there) Site.leaveNotUnknown

theorem orderlyStep [DecidableEq ι] [Fintype ι] {t : ι} {move} {s' : State ι} (inv : Inv s) (orderly : Orderly s)
    (unshared : Unshared s (t,move)) (ok : step s (t,move) = some s') : Orderly s' := by
  intro v r fs waiting
  obtain ⟨site,a,key,there,rfl⟩ := waitsUnder fs waiting
  by_cases same : v = t
  · exact same ▸ arrivedOrderly inv unshared ok (same ▸ there)
  · -- The thread that waits has fs.mutex, so the one that moves does not.
    obtain ⟨q,moved,spreads⟩ := stepSpreads (inv.fine t) ok
    rw [moved,Function.update_of_ne same] at fs waiting
    have free : .fs ∉ (s.threads t).held := fun mine => same (inv.exclusive fs mine)
    have apart : ¬ Reachable s v (.node a) := orderly v _ fs waiting
    rintro (told | ⟨u,other,reaches⟩)
    · rcases spreads.told told with before | mine
      · exact apart (.inl before)
      · exact apart (.inr ⟨t,Ne.symm same,mine⟩)
    · by_cases mover : u = t
      · subst mover
        rw [moved,Function.update_self] at reaches
        rcases spreads.reach free reaches with before | told
        · exact apart (.inr ⟨u,other,before⟩)
        · exact apart (.inl told)
      · rw [moved,Function.update_of_ne mover] at reaches
        exact apart (.inr ⟨u,other,reaches⟩)

theorem invStart [Fintype ι] : Inv (start : State ι) where
  exclusive := fun wrong => by simp [start,Place.held] at wrong
  fine := fun _ => trivial
  told := fun wrong => by simp [start] at wrong
  counted := fun wrong => by simp [start] at wrong

theorem lockOrder {ι : Type} [DecidableEq ι] [Fintype ι] {moves : List (ι × Move)} {s : State ι}
    (ok : run step start moves = some s) :
    ¬ Deadlock s ∧ (Meets step Unshared start moves → Orderly s) ∧
    ∀ move s', step s move = some s' → ¬ Unshared s move → ¬ Orderly s' := by
  have inv : Inv s := Lib.Run.invariant (fun _ _ => True) Inv (fun inv _ next => invStep inv next) invStart
    (Lib.Run.meetsOfMem fun _ _ _ => trivial) ok
  refine ⟨invDeadlock inv,fun meets => ?_,fun move s' next shared => sharedBreaks next shared⟩
  have both : Inv s ∧ Orderly s := by
    refine Lib.Run.invariant Unshared (fun s => Inv s ∧ Orderly s) ?_ ⟨invStart,?_⟩ meets ok
    · exact fun good unshared next => ⟨invStep good.1 next,orderlyStep good.1 good.2 unshared next⟩
    · exact fun t r held => absurd held (by simp [start,Place.held])
  exact both.2

end Order

def quiet : World := ⟨true,false,none,1,0,true⟩

def lookedUp : List (Fin 2 × Move) :=
  [(0,.lookup (7,1)),(0,.lock),(0,.go quiet)]

theorem newInodeOrderly : ∃ s ∈ run step start lookedUp,
    .fs ∈ (s.threads 0).held ∧ (s.threads 0).waits (.inode (.node 0)) ∧ ¬ Deadlock s ∧ Orderly s := by
  have meets : Meets step Unshared start lookedUp := by decide +kernel
  have reached : ∃ s ∈ run step start lookedUp,
      .fs ∈ (s.threads 0).held ∧ (s.threads 0).waits (.inode (.node 0)) := by decide +kernel
  obtain ⟨s,ok,fs,waits⟩ := reached
  have order := lockOrder ok
  exact ⟨s,ok,fs,waits,order.1,order.2.1 meets⟩

def recycling : List (Fin 2 × Move) :=
  [(0,.lookup (7,1)),(0,.lock),(0,.go quiet),(0,.lock),(0,.go quiet),(0,.go quiet),(0,.go quiet),
   (1,.unlink (7,1)),(1,.lock),(1,.go quiet),(1,.lock),(1,.go quiet),(1,.go quiet),
   (1,.lock),(1,.go quiet),(1,.lock),(1,.go quiet),(1,.go quiet),
   (1,.forget 0 1),(1,.lock),(0,.lookup (7,1)),(0,.lock),(0,.go quiet)]

theorem recycledWaits : ∃ s ∈ run step start recycling,
    .fs ∈ (s.threads 0).held ∧ (s.threads 0).waits (.inode (.node 0)) ∧
    .inode (.node 0) ∈ (s.threads 1).held ∧ ¬ Orderly s := by
  have reached : ∃ s ∈ run step start recycling, .fs ∈ (s.threads 0).held ∧
      (s.threads 0).waits (.inode (.node 0)) ∧ .inode (.node 0) ∈ (s.threads 1).held := by
    decide +kernel
  obtain ⟨s,ok,fs,waits,theirs⟩ := reached
  exact ⟨s,ok,fs,waits,theirs,fun orderly => orderly 0 _ fs waits (.inr ⟨1,by decide,.inl theirs⟩)⟩

end F3.Driver.Locks
