import F3.DriverLocks

/-! What keeps the threads of the multi-threaded loop going. fs.mutex is never waited for in vain,
but a listing locks its directory and then the inodes of its entries: two listings block each
other for ever when each has the other's directory as an entry. As long as the entries of a
directory rank above it, which a rename of a directory during a listing can upset, every
request ends. -/
namespace F3.Driver.Locks
open Lib.Run (run Meets)
open Lib.Threads

section Descent
variable {ι : Type} (rank : Ref → Nat)

def State.entry (s : State ι) (key : SrcId) : Nat := (s.table key).getD s.inodes.length

def Place.Finds (entry : SrcId → Nat) : Place → Prop
  | .inTable (.readdir dir _) key => rank dir < rank (.node (entry key))
  | _ => True

instance (entry : SrcId → Nat) (p : Place) : Decidable (p.Finds rank entry) := by
  cases p with
  | inTable site key =>
    cases site with
    | readdir dir listed => exact inferInstanceAs (Decidable (rank dir < rank (.node (entry key))))
    | lookup | unlink | forget => exact isTrue trivial
  | _ => exact isTrue trivial

def Descends (s : State ι) (a : ι × Move) : Prop := (s.threads a.1).Finds rank s.entry
instance (s : State ι) (a : ι × Move) : Decidable (Descends rank s a) := by unfold Descends; infer_instance

def Site.Below (a : Nat) : Site → Prop
  | .readdir dir _ => rank dir < rank (.node a)
  | _ => True

def Place.Below : Place → Prop
  | .doLookup site _ | .inTable site _ => site ≠ .forget
  | .known site a | .counting site a | .unknown site a _ | .filling site a _ | .filled site a | .stat site a =>
      site ≠ .forget ∧ site.Below rank a
  | .forget site a _ | .forgetting site a _ | .erasing site a | .erase site a | .erased site a =>
      site.Below rank a
  | _ => True

end Descent

inductive Next {ι : Type} (s : State ι) : Place → Move → Place → Prop where
  | lookup {key} : Next s .idle (.lookup key) (.doLookup .lookup key)
  | unlink {key} : Next s .idle (.unlink key) (.doLookup .unlink key)
  | forget {a n} : Next s .idle (.forget a n) (.forget .forget a n)
  | readdir {dir} : Next s .idle (.readdir dir) (.readdir dir)
  | entry {dir listed key} : Next s (.reading dir listed) (.entry key) (.doLookup (.readdir dir listed) key)
  | stop {dir listed} : Next s (.reading dir listed) .stop (.replying dir listed)
  | lock {p m q} (next : p.acquires = some (m,q)) : Next s p .lock q
  | known {site key w} : Next s (.inTable site key) (.go w) (.known site (s.entry key))
  | unknown {site key w} : Next s (.inTable site key) (.go w) (.unknown site (s.entry key) key)
  | noMemory {site key w} : Next s (.inTable site key) (.go w) site.leave
  | counted {site a w} : Next s (.counting site a) (.go w) (.stat site a)
  | filling {site a key w} : Next s (.filling site a key) (.go w) (.filled site a)
  | filled {site a w} : Next s (.filled site a) (.go w) (.stat site a)
  | statFails {site a w} : Next s (.stat site a) (.go w) site.leave
  | told {a w} : Next s (.stat .lookup a) (.go w) .idle
  | unlinks {a w} : Next s (.stat .unlink a) (.go w) (.unlink a)
  | links {a w} : Next s (.stat .unlink a) (.go w) .idle
  | listed {dir listed a w} : Next s (.stat (.readdir dir listed) a) (.go w) (.reading dir (a :: listed))
  | full {dir listed a w} :
      Next s (.stat (.readdir dir listed) a) (.go w) (.forget (.readdir dir listed) a 1)
  | last {site a n w} : Next s (.forgetting site a n) (.go w) (.erasing site a)
  | fewer {site a n w} : Next s (.forgetting site a n) (.go w) site.leave
  | erase {site a w} : Next s (.erase site a) (.go w) (.erased site a)
  | erased {site a w} : Next s (.erased site a) (.go w) site.leave
  | closes {a w} : Next s (.unlinking a) (.go w) (.closing a)
  | stays {a w} : Next s (.unlinking a) (.go w) .idle
  | closed {a w} : Next s (.closed a) (.go w) (.unlinked a)
  | unlinked {a w} : Next s (.unlinked a) (.go w) .idle
  | replied {dir listed w} : Next s (.replying dir listed) (.go w) .idle

structure Moved {ι : Type} [DecidableEq ι] (s : State ι) (t : ι) (move : Move) (p : Place) (s' : State ι) :
    Prop where
  threads : s'.threads = Function.update s.threads t p
  next : Next s (s.threads t) move p
  size : s.inodes.length ≤ s'.inodes.length
  table : ∀ {key a}, s'.table key = some a → s.table key = some a ∨ a < s'.inodes.length

section Inversion
variable {ι : Type} [DecidableEq ι] {s s' : State ι} {t : ι}

theorem movedGoto {move : Move} {p : Place} (next : Next s (s.threads t) move p) :
    Moved s t move p (s.goto t p) := ⟨rfl,next,Nat.le_refl _,.inl⟩

theorem movedModify {move : Move} {p : Place} {a : Nat} {f : Cell → Cell}
    (next : Next s (s.threads t) move p) : Moved s t move p ((s.modify a f).goto t p) := by
  refine ⟨rfl,next,?_,.inl⟩
  simp [State.goto,State.modify]

theorem movedTable {site key w} (here : s.threads t = .inTable site key)
    (ok : inTable s t site key w.memory = some s') : ∃ p, Moved s t (.go w) p s' := by
  unfold inTable at ok
  split at ok
  · rename_i a found
    obtain ⟨c,cell,ok⟩ := Option.bind_eq_some_iff.mp ok
    cases Option.some.inj ok
    obtain rfl : s.entry key = a := by simp [State.entry,found]
    split
    · exact ⟨_,movedGoto (here ▸ .known)⟩
    · exact ⟨_,movedGoto (here ▸ .unknown)⟩
  · rename_i absent
    have new : s.entry key = s.inodes.length := by simp [State.entry,absent]
    split at ok
    · cases Option.some.inj ok
      refine ⟨_,rfl,?_,?_,?_⟩
      · rw [here,← new]
        exact .unknown
      · simp [State.goto,State.insert]
      · intro other a leads
        by_cases same : other = key
        · subst same
          simp only [State.goto,State.insert,Function.update_self,Option.some.injEq] at leads ⊢
          subst leads
          exact .inr (by simp)
        · simp only [State.goto,State.insert,Function.update_of_ne same] at leads
          exact .inl leads
    · cases Option.some.inj ok
      exact ⟨_,movedGoto (here ▸ .noMemory)⟩

theorem movedStat {site a w} (here : s.threads t = .stat site a) (ok : stat s t site a w = some s') :
    ∃ p, Moved s t (.go w) p s' := by
  obtain ⟨c,found,ok⟩ := Option.bind_eq_some_iff.mp ok
  split at ok
  · cases Option.some.inj ok
    exact ⟨_,movedGoto (here ▸ .statFails)⟩
  · cases site with
    | lookup =>
      cases Option.some.inj ok
      refine ⟨_,rfl,here ▸ .told,?_,.inl⟩
      simp [State.goto,State.tell,State.modify]
    | unlink =>
      cases Option.some.inj ok
      split
      · exact ⟨_,movedModify (here ▸ .unlinks)⟩
      · exact ⟨_,movedModify (here ▸ .links)⟩
    | forget => cases ok
    | readdir dir listed =>
      cases Option.some.inj ok
      split
      · exact ⟨_,movedModify (here ▸ .listed)⟩
      · exact ⟨_,movedModify (here ▸ .full)⟩

theorem movedForgetting {site a n w} (here : s.threads t = .forgetting site a n)
    (ok : forgetting s t site a n = some s') : ∃ p, Moved s t (.go w) p s' := by
  obtain ⟨c,found,ok⟩ := Option.bind_eq_some_iff.mp ok
  split at ok <;> try contradiction
  cases Option.some.inj ok
  split
  · exact ⟨_,movedModify (here ▸ .last)⟩
  · exact ⟨_,movedModify (here ▸ .fewer)⟩

theorem movedErased {site a w} (here : s.threads t = .erased site a)
    (ok : advance s t w (.erased site a) = some s') : ∃ p, Moved s t (.go w) p s' := by
  obtain ⟨c,found,ok⟩ := Option.bind_eq_some_iff.mp ok
  cases Option.some.inj ok
  refine ⟨_,rfl,here ▸ .erased,Nat.le_refl _,?_⟩
  intro key b leads
  by_cases same : key = c.src
  · subst same
    simp [State.goto] at leads
  · simp only [State.goto,Function.update_of_ne same] at leads
    exact .inl leads

theorem movedAdvance {w} (ok : advance s t w (s.threads t) = some s') : ∃ p, Moved s t (.go w) p s' := by
  generalize here : s.threads t = p at ok
  cases p with
  | inTable site key => exact movedTable here ok
  | counting site a =>
    cases Option.some.inj ok
    exact ⟨_,movedModify (here ▸ .counted)⟩
  | filling site a key =>
    cases Option.some.inj ok
    exact ⟨_,movedModify (here ▸ .filling)⟩
  | filled site a =>
    cases Option.some.inj ok
    exact ⟨_,movedGoto (here ▸ .filled)⟩
  | stat site a => exact movedStat here ok
  | forgetting site a n => exact movedForgetting here ok
  | erase site a =>
    cases Option.some.inj ok
    exact ⟨_,movedGoto (here ▸ .erase)⟩
  | erased site a => exact movedErased here ok
  | unlinking a =>
    obtain ⟨c,found,ok⟩ := Option.bind_eq_some_iff.mp ok
    cases Option.some.inj ok
    split
    · exact ⟨_,movedGoto (here ▸ .closes)⟩
    · exact ⟨_,movedGoto (here ▸ .stays)⟩
  | closed a =>
    cases Option.some.inj ok
    exact ⟨_,movedModify (here ▸ .closed)⟩
  | unlinked a =>
    cases Option.some.inj ok
    exact ⟨_,movedGoto (here ▸ .unlinked)⟩
  | replying dir listed =>
    cases Option.some.inj ok
    exact ⟨_,rfl,here ▸ .replied,Nat.le_refl _,.inl⟩
  | _ => cases ok

theorem moved [Fintype ι] {move} (ok : step s (t,move) = some s') : ∃ p, Moved s t move p s' := by
  cases move with
  | lookup key =>
    simp only [step] at ok
    split at ok <;> try contradiction
    rename_i idle
    cases Option.some.inj ok
    exact ⟨_,movedGoto (idle ▸ .lookup)⟩
  | unlink key =>
    simp only [step] at ok
    split at ok <;> try contradiction
    rename_i idle
    cases Option.some.inj ok
    exact ⟨_,movedGoto (idle ▸ .unlink)⟩
  | forget a n =>
    simp only [step] at ok
    split at ok <;> try contradiction
    rename_i may
    cases Option.some.inj ok
    exact ⟨_,rfl,may.1 ▸ .forget,Nat.le_refl _,.inl⟩
  | readdir dir =>
    simp only [step] at ok
    split at ok <;> try contradiction
    rename_i may
    cases Option.some.inj ok
    exact ⟨_,movedGoto (may.1 ▸ .readdir)⟩
  | entry key =>
    simp only [step] at ok
    split at ok <;> try contradiction
    rename_i dir listed here
    split at ok <;> try contradiction
    cases Option.some.inj ok
    exact ⟨_,movedGoto (here ▸ .entry)⟩
  | stop =>
    simp only [step] at ok
    split at ok <;> try contradiction
    rename_i dir listed here
    cases Option.some.inj ok
    exact ⟨_,movedGoto (here ▸ .stop)⟩
  | lock =>
    simp only [step] at ok
    split at ok <;> try contradiction
    rename_i m p next
    split at ok <;> try contradiction
    cases Option.some.inj ok
    exact ⟨_,movedGoto (.lock next)⟩
  | go w => exact movedAdvance ok

end Inversion

structure Ordered {ι : Type} (rank : Ref → Nat) (s : State ι) : Prop where
  below : ∀ t, (s.threads t).Below rank
  inside : ∀ {key a}, s.table key = some a → a < s.inodes.length

section Order
variable {ι : Type} {rank : Ref → Nat}

theorem Site.leaveBelow {site : Site} : site.leave.Below rank := by cases site <;> trivial

theorem acquiresBelow {p q : Place} {m} (next : p.acquires = some (m,q)) (below : p.Below rank) :
    q.Below rank := by
  cases p with
  | doLookup | known | unknown | forget | erasing =>
    cases next
    exact below
  | unlink | closing | readdir =>
    cases next
    trivial
  | _ => cases next

theorem entryBelow {entry : SrcId → Nat} {site key} (finds : (Place.inTable site key).Finds rank entry) :
    site.Below rank (entry key) := by
  cases site with
  | readdir dir listed => exact finds
  | lookup | unlink | forget => trivial

theorem nextBelow {s : State ι} {t : ι} {move p} (next : Next s (s.threads t) move p)
    (below : (s.threads t).Below rank) (descends : Descends rank s (t,move)) : p.Below rank := by
  unfold Descends at descends
  generalize s.threads t = q at next below descends
  cases next with
  | lookup | unlink | entry => exact Site.noConfusion
  | known | unknown => exact ⟨below,entryBelow descends⟩
  | lock next => exact acquiresBelow next below
  | noMemory | statFails | fewer | erased => exact Site.leaveBelow
  | counted | filling | filled => exact below
  | full => exact below.2
  | last | erase => exact below
  | _ => trivial

theorem orderedStep [DecidableEq ι] {s s' : State ι} {t : ι} {move p} (is : Moved s t move p s')
    (ordered : Ordered rank s) (descends : Descends rank s (t,move)) : Ordered rank s' where
  below := by
    intro u
    rw [is.threads]
    by_cases mine : u = t
    · subst mine
      rw [Function.update_self]
      exact nextBelow is.next (ordered.below u) descends
    · rw [Function.update_of_ne mine]
      exact ordered.below u
  inside := by
    intro key a leads
    rcases is.table leads with old | new
    · exact Nat.lt_of_lt_of_le (ordered.inside old) is.size
    · exact new

theorem orderedStart : Ordered rank (start : State ι) := ⟨fun _ => trivial,nofun⟩

end Order

section Work

def Site.work : Site → Nat
  | .readdir _ _ => 2
  | _ => 0

-- How many moves the thread is from idle, at most, when no further entry is read.
def Place.work : Place → Nat
  | .idle => 0
  | .doLookup site _ => site.work + 11
  | .inTable site _ => site.work + 10
  | .unknown site _ _ => site.work + 9
  | .known site _ | .filling site _ _ => site.work + 8
  | .counting site _ | .filled site _ => site.work + 7
  | .stat site _ => site.work + 6
  | .forget site _ _ => site.work + 5
  | .forgetting site _ _ => site.work + 4
  | .erasing site _ => site.work + 3
  | .erase site _ => site.work + 2
  | .erased site _ => site.work + 1
  | .unlink _ => 5
  | .unlinking _ => 4
  | .closing _ => 3
  | .closed _ => 2
  | .unlinked _ => 1
  | .readdir _ => 3
  | .reading _ _ => 2
  | .replying _ _ => 1

def Draining : Move → Prop
  | .lock | .stop | .go _ => True
  | _ => False

theorem Site.leaveWork (site : Site) : site.leave.work ≤ site.work := by
  cases site <;> simp [Site.leave,Place.work,Site.work]

theorem acquiresWork {p q : Place} {m} (next : p.acquires = some (m,q)) : q.work < p.work := by
  cases p <;> cases next <;> simp [Place.work]

theorem nextWork {ι : Type} {s : State ι} {p q : Place} {move} (next : Next s p move q)
    (draining : Draining move) : q.work < p.work := by
  cases next with
  | lookup | unlink | forget | readdir | entry => cases draining
  | lock next => exact acquiresWork next
  | noMemory | statFails | fewer | erased => exact Nat.lt_of_le_of_lt (Site.leaveWork _) (by simp [Place.work])
  | _ => simp [Place.work,Site.work]

def State.work {ι : Type} [Fintype ι] (s : State ι) : Nat := total Place.work s.threads

theorem workStep {ι : Type} [DecidableEq ι] [Fintype ι] {s s' : State ι} {t : ι} {move p}
    (is : Moved s t move p s') (draining : Draining move) : s'.work < s.work := by
  have sum := totalMove Place.work s.threads t p
  have less := nextWork is.next draining
  simp only [State.work,is.threads]
  omega

end Work

section Progress
variable {ι : Type} {rank : Ref → Nat} {s : State ι} {t : ι}

def Blocked (s : State ι) (t : ι) : Prop := ∃ m, (s.threads t).waits m ∧ ¬ Free Place.held s.threads m

theorem heldBusy {m} (mine : m ∈ (s.threads t).held) : s.threads t ≠ .idle := by
  intro idle
  simp [idle,Place.held] at mine

def agreeable : World := ⟨true,false,some (0,0),1,0,true⟩

theorem statMoves [DecidableEq ι] {site a} (cell : a < s.inodes.length) (caller : site ≠ .forget) :
    stat s t site a agreeable ≠ none := by
  have found := List.getElem?_eq_getElem cell
  cases site <;> simp [stat,found,back,agreeable] at caller ⊢

theorem builtInside {a : Nat} {good : Cell → Prop} (here : At s a good) : a < s.inodes.length :=
  (List.getElem?_eq_some_iff.mp here.choose_spec.1).1

theorem heldListing {p : Place} {r r'} (mine : .inode r ∈ p.held) (waiting : p.waits (.inode r'))
    (fine : p.Fine s) (below : p.Below rank) :
    ∃ dir listed b, r = dir ∧ r' = .node b ∧ Site.Fine s (.readdir dir listed) ∧ rank dir < rank (.node b) := by
  have listing {site : Site} {b : Nat} (held : .inode r ∈ site.held) (goal : r' = .node b) (fine : site.Fine s)
      (below : site.Below rank b) : ∃ dir listed b, r = dir ∧ r' = .node b ∧
        Site.Fine s (.readdir dir listed) ∧ rank dir < rank (.node b) := by
    obtain ⟨dir,listed,rfl,same⟩ := Site.heldInode held
    exact ⟨dir,listed,b,Mutex.inode.inj same,goal,fine,below⟩
  cases p with
  | known site a => exact listing mine (by simpa [Place.waits,Place.acquires] using waiting.symm) fine.1 below.2
  | unknown site a key =>
    rcases List.mem_cons.mp mine with wrong | held
    · cases wrong
    · exact listing held (by simpa [Place.waits,Place.acquires] using waiting.symm) fine.1 below.2
  | forget site a n => exact listing mine (by simpa [Place.waits,Place.acquires] using waiting.symm) fine.1 below
  | unlink a | readdir dir => cases mine
  | _ => simp [Place.waits,Place.acquires] at waiting

variable [Fintype ι]

theorem enoughCounted {site a n} {c : Cell} (inv : Inv s) (here : s.threads t = .forgetting site a n)
    (found : s.inodes[a]? = some c) : n ≤ c.nlookup := by
  have mine := leTotal (Place.credit a) s.threads t
  have counted := inv.counted found
  simp only [here,Place.credit,List.count_singleton_self,Nat.mul_one] at mine
  omega

theorem lockMoves [DecidableEq ι] {m q} (next : (s.threads t).acquires = some (m,q)) (free : ¬ Blocked s t) :
    step s (t,.lock) = some (s.goto t q) := by
  have open' : Free Place.held s.threads m := by
    by_contra held
    exact free ⟨m,by simp [Place.waits,next],held⟩
  simp only [step,next,if_pos open']

theorem goMoves [DecidableEq ι] (inv : Inv s) (ordered : Ordered rank s) (busy : s.threads t ≠ .idle)
    (nothing : (s.threads t).acquires = none) (reads : ∀ dir listed, s.threads t ≠ .reading dir listed) :
    advance s t agreeable (s.threads t) ≠ none := by
  have fine := inv.fine t
  have below := ordered.below t
  cases here : s.threads t with
  | idle => exact absurd here busy
  | reading dir listed => exact absurd here (reads dir listed)
  | inTable site key =>
    simp only [advance,inTable]
    split
    · rename_i a found
      rw [List.getElem?_eq_getElem (ordered.inside found)]
      exact Option.some_ne_none _
    · exact Option.some_ne_none _
  | stat site a =>
    rw [here] at fine below
    exact statMoves (builtInside fine.2) below.1
  | forgetting site a n =>
    rw [here] at fine
    obtain ⟨c,found,-⟩ := fine.2
    have enough := enoughCounted inv here found
    simp [advance,forgetting,found,Nat.not_lt.mpr enough]
  | erased site a =>
    rw [here] at fine
    obtain ⟨c,found,-⟩ := fine.2
    simp [advance,found]
  | unlinking a =>
    rw [here] at fine
    obtain ⟨c,found,-⟩ := fine
    simp [advance,found]
  | counting | filling | filled | erase | closed | unlinked | replying => exact Option.some_ne_none _
  | _ => simp [here,Place.acquires] at nothing

theorem busyMoves [DecidableEq ι] (inv : Inv s) (ordered : Ordered rank s) (busy : s.threads t ≠ .idle)
    (free : ¬ Blocked s t) : ∃ move, Draining move ∧ step s (t,move) ≠ none := by
  cases next : (s.threads t).acquires with
  | some lock =>
    refine ⟨.lock,trivial,?_⟩
    rw [lockMoves next free]
    exact Option.some_ne_none _
  | none =>
    by_cases reads : ∃ dir listed, s.threads t = .reading dir listed
    · obtain ⟨dir,listed,here⟩ := reads
      exact ⟨.stop,trivial,by simp [step,here]⟩
    · simp only [not_exists] at reads
      exact ⟨.go agreeable,trivial,goMoves inv ordered busy next reads⟩

theorem fsNotAgain {p : Place} (fs : .fs ∈ p.held) (waiting : p.waits .fs) : False := by
  cases p with
  | doLookup site key => exact Site.heldNotFs fs
  | erasing site a =>
    rcases List.mem_cons.mp fs with wrong | held
    · cases wrong
    · exact Site.heldNotFs held
  | closing a => simp [Place.held] at fs
  | _ => simp [Place.waits,Place.acquires] at waiting

theorem fsMoves (inv : Inv s) (ordered : Ordered rank s) (fs : .fs ∈ (s.threads t).held) :
    ∃ u, s.threads u ≠ .idle ∧ ¬ Blocked s u := by
  by_cases free : Blocked s t
  swap
  · exact ⟨t,heldBusy fs,free⟩
  obtain ⟨m,waiting,taken⟩ := free
  cases m with
  | fs => exact (fsNotAgain fs waiting).elim
  | inode r =>
    simp only [Free,not_forall,not_not] at taken
    obtain ⟨u,theirs⟩ := taken
    refine ⟨u,heldBusy theirs,?_⟩
    rintro ⟨m,back,-⟩
    cases m with
    | fs => exact invDeadlock inv ⟨t,u,r,fs,waiting,theirs,back⟩
    | inode r' =>
      obtain ⟨site,a,key,here,rfl⟩ := waitsUnder fs waiting
      obtain ⟨dir,listed,b,rfl,-,listing,-⟩ := heldListing theirs back (inv.fine u) (ordered.below u)
      have mine := inv.fine t
      rw [here] at mine
      obtain ⟨c,found,dead⟩ := mine.2
      obtain ⟨d,cell,live⟩ := listing.1
      obtain rfl := Option.some.inj (found.symm.trans cell)
      exact dead live

def waitedRank (rank : Ref → Nat) (p : Place) : Nat :=
  match p.acquires with
  | some (.inode r,_) => rank r
  | _ => 0

theorem waitsRank {p : Place} {r} (waiting : p.waits (.inode r)) : waitedRank rank p = rank r := by
  obtain ⟨⟨m,q⟩,next,same⟩ := Option.map_eq_some_iff.mp waiting
  cases same
  simp [waitedRank,next]

theorem somebodyMoves (inv : Inv s) (ordered : Ordered rank s) (busy : s.threads t ≠ .idle) :
    ∃ u, s.threads u ≠ .idle ∧ ¬ Blocked s u := by
  by_cases free : Free Place.held s.threads .fs
  swap
  · simp only [Free,not_forall,not_not] at free
    obtain ⟨u,fs⟩ := free
    exact fsMoves inv ordered fs
  -- All that is waited for is an inode's mutex, and each holder waits for one that ranks higher.
  refine unblocked (fun u => s.threads u ≠ .idle) (Blocked s) (fun u => waitedRank rank (s.threads u)) ?_ busy
  rintro u - ⟨m,waiting,taken⟩
  cases m with
  | fs => exact absurd free taken
  | inode r =>
    simp only [Free,not_forall,not_not] at taken
    obtain ⟨v,theirs⟩ := taken
    refine ⟨v,heldBusy theirs,?_⟩
    rintro ⟨m,back,stuck⟩
    cases m with
    | fs => exact absurd free stuck
    | inode r' =>
      obtain ⟨dir,listed,b,rfl,rfl,-,higher⟩ := heldListing theirs back (inv.fine v) (ordered.below v)
      rw [waitsRank waiting,waitsRank back]
      exact higher

end Progress

section Drain
variable {ι : Type} [DecidableEq ι] [Fintype ι] {rank : Ref → Nat}

theorem settledStep {s s' : State ι} {a : ι × Move} (held : Inv s ∧ Ordered rank s)
    (descends : Descends rank s a) (ok : step s a = some s') : Inv s' ∧ Ordered rank s' := by
  obtain ⟨p,is⟩ := moved ok
  exact ⟨invStep held.1 ok,orderedStep is held.2 descends⟩

theorem requestsDrain {served draining : List (ι × Move)} {s s' : State ι}
    (descends : Meets step (Descends rank) start (served ++ draining))
    (reached : run step start served = some s) (drained : run step s draining = some s')
    (only : ∀ a ∈ draining, Draining a.2) :
    draining.length + s'.work ≤ s.work ∧
      ((∀ t, s'.threads t = .idle) ∨ ∃ t move, Draining move ∧ step s' (t,move) ≠ none) := by
  obtain ⟨front,back⟩ := Lib.Run.meetsSplit descends reached
  have before : Inv s ∧ Ordered rank s := Lib.Run.invariant (Descends rank) _ settledStep
    ⟨invStart,orderedStart⟩ front reached
  obtain ⟨after,short⟩ := Lib.Run.lowers (fun s a => Descends rank s a ∧ Draining a.2)
    (fun s => Inv s ∧ Ordered rank s) State.work (fun held guard ok => by
      obtain ⟨p,is⟩ := moved ok
      exact ⟨settledStep held guard.1 ok,workStep is guard.2⟩)
    before (Lib.Run.meetsAnd back (Lib.Run.meetsOfMem fun a mem _ => only a mem)) drained
  refine ⟨short,?_⟩
  by_cases idle : ∀ t, s'.threads t = .idle
  · exact .inl idle
  · obtain ⟨t,busy⟩ := not_forall.mp idle
    obtain ⟨u,isBusy,free⟩ := somebodyMoves after.1 after.2 busy
    exact .inr ⟨u,busyMoves after.1 after.2 isBusy free⟩

end Drain

/- One thread lists the root and has the inode of its entry locked, which the other is looking up. -/
def listing : List (Bool × Move) :=
  [(false,.readdir .root),(false,.lock),(false,.entry (7,1)),(false,.lock),(false,.go quiet),
   (false,.lock),(false,.go quiet),(false,.go quiet),(false,.go quiet),(true,.lookup (7,1)),
   (true,.lock),(true,.go quiet),(false,.entry (7,1)),(false,.lock),(false,.go quiet),(false,.lock)]

def listed : List (Bool × Move) :=
  [(false,.go quiet),(false,.go quiet),(true,.lock),(true,.go quiet),(true,.go quiet),(false,.stop),
   (false,.go quiet)]

def depth : Ref → Nat
  | .root => 0
  | .node a => a + 1

theorem listingDrains : ∃ s ∈ run step start listing, ∃ s' ∈ run step s listed,
    listed.length + s'.work ≤ s.work ∧
      ((∀ t, s'.threads t = .idle) ∨ ∃ t move, Draining move ∧ step s' (t,move) ≠ none) := by
  have reached : ∃ s ∈ run step start listing, ∃ s' ∈ run step s listed,
      Meets step (Descends depth) start (listing ++ listed) := by
    decide +kernel
  obtain ⟨s,ok,s',drained,descends⟩ := reached
  exact ⟨s,ok,s',drained,requestsDrain descends ok drained (by simp [listed,Draining])⟩

example : ∃ s ∈ run step start ([(false,.lookup (7,1)),(false,.lock),(false,.go quiet),
      (false,.lock),(false,.go quiet),(false,.go quiet),(false,.go quiet),(false,.lookup (8,1)),
      (false,.lock),(false,.go quiet),(false,.lock),(false,.go quiet),(false,.go quiet),
      (false,.go quiet),(false,.readdir (.node 0)),(false,.lock),(true,.readdir (.node 1)),
      (true,.lock),(false,.entry (8,1)),(false,.lock),(false,.go quiet),(true,.entry (7,1)),
      (true,.lock),(true,.go quiet)] :
        List (Bool × Move)),
    (s.threads false).waits (.inode (.node 1)) ∧ .inode (.node 1) ∈ (s.threads true).held ∧
      (s.threads true).waits (.inode (.node 0)) ∧ .inode (.node 0) ∈ (s.threads false).held := by
  decide +kernel

end F3.Driver.Locks
