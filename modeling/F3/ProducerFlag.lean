import F3.Producer

/-! The completion flag over whole histories of a producer node: overlapping handles,
repeated write sessions, any number of connections. The flag is entered for every
release, of a reader as of a writer, and taken away by whichever connection ends. -/
namespace F3.Producer.Flag
open Lib (Bytes)
open Lib.Run (run Meets)

structure OneKey (key : Name) (s : State) : Prop where
  same : s.key = key
  socket : ∀ m ∈ s.socket, m = key
  handler : ∀ m ∈ s.handler, m = key
  entered : ∀ m ∈ s.writeComplete, m = key
  conns : ∀ c ∈ s.conns, Asks key c.message

theorem bootOneKey (key : Name) (content : Bytes) : OneKey key (boot key content) := by
  constructor <;> simp [boot]

theorem stepOneKey {key s a t} (inv : OneKey key s) (ok : step s a = some t) : OneKey key t := by
  cases stepped ok with
  | openHandle fresh => exact ⟨inv.same,inv.socket,inv.handler,inv.entered,inv.conns⟩
  | write handle => exact ⟨inv.same,inv.socket,inv.handler,inv.entered,inv.conns⟩
  | truncate handle => exact ⟨inv.same,inv.socket,inv.handler,inv.entered,inv.conns⟩
  | release known =>
    refine ⟨inv.same,?_,inv.handler,inv.entered,inv.conns⟩
    intro m mem
    by_cases nd : s.needsDownload
    · exact inv.socket m (by simpa [nd] using mem)
    · have split : m ∈ s.socket ∨ m = s.key := by simpa [nd] using mem
      exact split.elim (inv.socket m) (fun same => same.trans inv.same)
  | known idle next present =>
    exact ⟨inv.same,fun m mem => inv.socket m (by simp [next,mem]),by simp,inv.entered,inv.conns⟩
  | @fresh message rest idle next absent =>
    refine ⟨inv.same,fun m mem => inv.socket m (by simp [next,mem]),?_,inv.entered,inv.conns⟩
    intro m mem
    have same : message = m := by simpa using mem
    exact same ▸ inv.socket message (by simp [next])
  | @set message armed =>
    refine ⟨inv.same,inv.socket,by simp,?_,inv.conns⟩
    intro m mem
    rcases Finset.mem_insert.mp mem with same | old
    · exact same.trans (inv.handler message armed)
    · exact inv.entered m old
  | arrive asks =>
    refine ⟨inv.same,inv.socket,inv.handler,inv.entered,?_⟩
    intro c mem
    rcases List.mem_append.mp mem with old | new
    · exact inv.conns c old
    · rw [List.mem_singleton.mp new]
      exact inv.same ▸ asks
  | @serve i b c0 c1 wc' conn one =>
    refine ⟨inv.same,inv.socket,inv.handler,fun m mem => inv.entered m (servedSubset one mem),?_⟩
    intro c mem
    rcases List.mem_or_eq_of_mem_set mem with old | new
    · exact inv.conns c old
    · rw [new,servedMessage one]
      exact inv.conns c0 (List.mem_of_getElem? conn)

theorem runOneKey {key content} {steps : List Step} {s}
    (ok : run step (boot key content) steps = some s) : OneKey key s :=
  Lib.Run.invariant (fun _ _ => True) (OneKey key) (fun inv _ one => stepOneKey inv one)
    (bootOneKey key content) (Lib.Run.meetsOfMem fun _ _ _ => trivial) ok

theorem foundKey {key s m} (inv : OneKey key s) (asks : Asks key m) :
    Found s.writeComplete m ↔ key ∈ s.writeComplete := by
  constructor
  · rintro (found | found)
    · exact inv.entered m found ▸ found
    · exact inv.entered _ found ▸ found
  · intro entered
    rcases asks with rfl | rfl
    · exact Or.inl entered
    · exact Or.inr entered

def NoWriter (s : State) : Prop := ∀ h ∈ s.handles, h.writable = false

def Pending (s : State) : Prop :=
  s.socket ≠ [] ∨ s.handler ≠ none ∨ s.key ∈ s.writeComplete

/- The file is opened for writing only when no completion is recorded or on its
way, and a handle is released only when no other handle can still write. -/
def Exclusive (s : State) : Step → Prop
  | .openHandle _ true => s.socket = [] ∧ s.handler = none ∧ s.key ∉ s.writeComplete
  | .release fh => ∀ h ∈ s.handles, h.fh ≠ fh → h.writable = false
  | _ => True
instance (s a) : Decidable (Exclusive s a) := by
  unfold Exclusive
  rcases a with ⟨_,_ | _⟩ | _ | _ | _ | _ | _ | _ | _ <;> infer_instance

structure Fresh (key : Name) (s : State) : Prop where
  one : OneKey key s
  idle : Pending s → NoWriter s

theorem stepFresh {key s a t} (inv : Fresh key s) (guard : Exclusive s a)
    (ok : step s a = some t) : Fresh key t := by
  refine ⟨stepOneKey inv.one ok,?_⟩
  cases stepped ok with
  | @openHandle fh writable fresh =>
    intro pending
    cases writable with
    | true =>
      obtain ⟨socket,handler,flag⟩ := guard
      rcases pending with h | h | h
      · exact absurd socket h
      · exact absurd handler h
      · exact absurd h flag
    | false =>
      intro h mem
      rcases List.mem_cons.mp mem with rfl | old
      · rfl
      · exact inv.idle pending h old
  | release known =>
    intro _ h mem
    obtain ⟨old,other⟩ := List.mem_filter.mp mem
    exact guard h old (by simpa using other)
  | known idle next present => exact fun _ => inv.idle (Or.inl (by simp [next]))
  | fresh idle next absent => exact fun _ => inv.idle (Or.inl (by simp [next]))
  | set armed => exact fun _ => inv.idle (Or.inr (Or.inl (by simp [armed])))
  | @serve i b c0 c1 wc' conn one =>
    intro pending
    refine inv.idle ?_
    rcases pending with h | h | h
    · exact Or.inl h
    · exact Or.inr (Or.inl h)
    · exact Or.inr (Or.inr (servedSubset one h))
  | _ => exact inv.idle

theorem observedWithoutWriter {key : Name} {content : Bytes} {steps : List Step} {s t : State}
    {i : Nat} {c : Conn} (exclusive : Meets step Exclusive (boot key content) steps)
    (ok : run step (boot key content) steps = some s)
    (check : step s (.serve i .check) = some t) (conn : t.conns[i]? = some c)
    (writedone : c.phase = .draining) : NoWriter s := by
  have start : Fresh key (boot key content) :=
    ⟨bootOneKey key content,by simp [boot,Pending]⟩
  have inv : Fresh key s := Lib.Run.invariant Exclusive (Fresh key) stepFresh start exclusive ok
  cases stepped check with
  | @serve _ _ c0 c1 wc' old one =>
    have bound : i < s.conns.length := (List.getElem?_eq_some_iff.mp old).1
    have same : c1 = c := by simpa [List.getElem?_set,bound] using conn
    subst c
    cases one with
    | missing phase flag => simp at writedone
    | found phase flag =>
      have asks := inv.one.conns c0 (List.mem_of_getElem? old)
      have entered := (foundKey inv.one asks).mp flag
      exact inv.idle (Or.inr (Or.inr (inv.one.same ▸ entered)))

def twoSessions : List Step :=
  [.openHandle 1 true,.write 1 0 [65],.release 1,.recv,.set,.arrive [47,97],.serve 0 (.chunk 1),
   .serve 0 .eof,.serve 0 .check,.serve 0 .eof,.serve 0 .close,.serve 0 .delete,
   .openHandle 2 true,.write 2 0 [66],.release 2,.recv,.set,.arrive [97],.serve 1 (.chunk 1),
   .serve 1 .eof]

theorem twoSessionsObserved :
    NoWriter ⟨[47,97],false,[66],[],[],none,{[47,97]},
      [⟨[47,97],1,[65],false,.finished⟩,⟨[97],1,[66],false,.checking⟩]⟩ :=
  @observedWithoutWriter [47,97] [] twoSessions _
    ⟨[47,97],false,[66],[],[],none,{[47,97]},
      [⟨[47,97],1,[65],false,.finished⟩,⟨[97],1,[66],false,.draining⟩]⟩ 1
    ⟨[97],1,[66],false,.draining⟩ (by decide) (by decide) (by decide) rfl rfl

/- A reader's release while the writer is still at work: the done message goes out,
and the connection ends the transfer with the one byte that is there. -/
def readerReleases : List Step :=
  [.openHandle 1 true,.write 1 0 [65],.openHandle 2 false,.release 2,.recv,.set,
   .arrive [47,97],.serve 0 (.chunk 1),.serve 0 .eof]

theorem observedWithWriter : ∃ s t c, run step (boot [47,97] []) readerReleases = some s ∧
    step s (.serve 0 .check) = some t ∧ t.conns[0]? = some c ∧ c.phase = .draining ∧
    ⟨1,true⟩ ∈ s.handles := by
  refine ⟨⟨[47,97],false,[65],[⟨1,true⟩],[],none,{[47,97]},[⟨[47,97],1,[65],false,.checking⟩]⟩,
    ⟨[47,97],false,[65],[⟨1,true⟩],[],none,{[47,97]},[⟨[47,97],1,[65],false,.draining⟩]⟩,
    ⟨[47,97],1,[65],false,.draining⟩,?_⟩
  decide

def flagged : Bool → List Step → Bool
  | b,[] => b
  | _,.set::rest => flagged true rest
  | _,.serve _ .delete::rest => flagged false rest
  | b,_::rest => flagged b rest

theorem servedKeeps {content wc c a c' wc'} (h : Served content wc c a c' wc')
    (notDelete : a ≠ .delete) : wc' = wc := by
  cases h with
  | delete phase => exact absurd rfl notDelete
  | _ => rfl

theorem deletedKey {key content wc c c' wc'} (asks : Asks key c.message)
    (h : Served content wc c .delete c' wc') : key ∉ wc' := by
  cases h with
  | delete phase =>
    rcases asks with same | same <;> simp [← same]

theorem runFlagged {key s} {steps : List Step} {t} (inv : OneKey key s)
    (ok : run step s steps = some t) :
    key ∈ t.writeComplete ↔ flagged (decide (key ∈ s.writeComplete)) steps = true := by
  induction steps generalizing s with
  | nil =>
    cases Option.some.inj ok
    simp [flagged]
  | cons a rest ih =>
    obtain ⟨u,one,tail⟩ := Lib.Run.runCons ok
    have next := ih (stepOneKey inv one) tail
    rw [next]
    cases stepped one with
    | @set message armed =>
      have same : message = key := inv.handler message armed
      simp [flagged,same]
    | @serve i b c0 c1 wc' conn served =>
      have asks := inv.conns c0 (List.mem_of_getElem? conn)
      cases b with
      | delete => simp [flagged,deletedKey asks served]
      | _ => simp [flagged,servedKeeps served (by simp)]
    | _ => rfl

def Processed (s : State) (a : Step) (t : State) : Prop :=
  step s a = some t ∧ (a = .set ∨ (a = .recv ∧ t.handler = none))
instance (s a t) : Decidable (Processed s a t) := by unfold Processed; infer_instance

theorem processedEntered {key s a t} (inv : OneKey key s) (done : Processed s a t) :
    key ∈ t.writeComplete := by
  obtain ⟨ok,kind⟩ := done
  cases stepped ok with
  | @set message armed =>
    have same : message = key := inv.handler message armed
    simp [same]
  | @known message rest idle next present =>
    have same : message = key := inv.socket message (by simp [next])
    exact same ▸ present
  | fresh idle next absent => simp at kind
  | _ => simp at kind

theorem flagFoundUntilDeleted {key content} {before after : List Step} {a : Step} {s u t : State}
    (first : run step (boot key content) before = some s) (done : Processed s a u)
    (ok : run step u after = some t) :
    (∀ m, Asks key m → Found t.writeComplete m) ↔ flagged true after = true := by
  have one := runOneKey first
  have entered := processedEntered one done
  have mid := stepOneKey one done.1
  have last : OneKey key t := Lib.Run.invariant (fun _ _ => True) (OneKey key)
    (fun inv _ h => stepOneKey inv h) mid (Lib.Run.meetsOfMem fun _ _ _ => trivial) ok
  have flag := runFlagged mid ok
  simp only [entered,decide_true] at flag
  rw [← flag]
  constructor
  · intro all
    exact (foundKey last (Or.inl rfl)).mp (all key (Or.inl rfl))
  · intro present m asks
    exact (foundKey last asks).mpr present

def twoWaiting : List Step :=
  [.openHandle 1 true,.arrive [47,97],.arrive [97],.serve 0 .eof,.serve 0 .check,.serve 1 .eof,
   .serve 1 .check,.write 1 0 [65],.release 1,.recv]

def firstEnds : List Step :=
  [.serve 0 .wake,.serve 0 (.chunk 1),.serve 0 .eof,.serve 0 .check,.serve 0 .eof,.serve 0 .close]

def armed : State :=
  ⟨[47,97],false,[65],[],[],some [47,97],∅,
    [⟨[47,97],0,[],false,.sleeping⟩,⟨[97],0,[],false,.sleeping⟩]⟩

def entered : State :=
  ⟨[47,97],false,[65],[],[],none,{[47,97]},
    [⟨[47,97],0,[],false,.sleeping⟩,⟨[97],0,[],false,.sleeping⟩]⟩

def closed : State :=
  ⟨[47,97],false,[65],[],[],none,{[47,97]},
    [⟨[47,97],1,[65],false,.deleting⟩,⟨[97],0,[],false,.sleeping⟩]⟩

theorem twoWaitingFound : (∀ m, Asks [47,97] m → Found closed.writeComplete m) ↔
    flagged true firstEnds = true :=
  @flagFoundUntilDeleted [47,97] [] twoWaiting firstEnds .set armed entered closed
    (by decide) (by decide) (by decide)

theorem secondWaits : ∃ t c, run step (boot [47,97] []) twoWaiting = some armed ∧
    Processed armed .set entered ∧
    run step entered (firstEnds ++ [.serve 0 .delete,.serve 1 .wake,.serve 1 (.chunk 1),
      .serve 1 .eof]) = some t ∧
    t.conns[1]? = some c ∧ c.phase = .checking ∧ Asks [47,97] c.message ∧
    ¬ Found t.writeComplete c.message := by
  refine ⟨⟨[47,97],false,[65],[],[],none,∅,
    [⟨[47,97],1,[65],false,.finished⟩,⟨[97],1,[65],false,.checking⟩]⟩,
    ⟨[97],1,[65],false,.checking⟩,?_⟩
  decide

end F3.Producer.Flag
