import F3.Transfer
import F3.ProducerOrder

/-! One write session and the consumers that fetch the file meanwhile: what a consumer's
copy holds when its client answers the driver, and that a transfer can always be brought to
that answer once the session is over. -/
namespace F3.Transfer
open Lib (Bytes)
open Lib.Run (run Meets)
open Client.Copy (Idle Level)
open Client.Answer (Past Sending Complete Served)
open Producer (Asks Found)
open Producer.Stream (InSession LeavesSent Streaming Closed Cursor)

def Sound (n : Node) : Client.Step → Prop
  | .copy _ (.read _) => Idle n.client.copiers
  | .copy _ .readEof => Idle n.client.copiers
  | .copy _ .readError => False
  | .copy _ (.appendError _) => False
  | _ => True
instance (n a) : Decidable (Sound n a) := by
  unfold Sound
  rcases a with _ | _ | _ | ⟨_,one⟩ | _ <;> try infer_instance
  rcases one <;> infer_instance

def Clean (fh : Nat) (s : State) : Step → Prop
  | .produce a => InSession fh a ∧ Leaves s.producer a
  | .request k _ => ∀ n ∈ s.nodes[k]?, n.client.file = none → n.client.content = []
  | .node k a => ∀ n ∈ s.nodes[k]?, Sound n a
instance (fh s a) : Decidable (Clean fh s a) := by
  unfold Clean
  rcases a <;> infer_instance

section Producing
variable {fh i : Nat} {p q : Producer.State}

theorem leavesSent {a} (streaming : Streaming fh i p) (leaves : Leaves p a) : LeavesSent i p a := by
  cases a with
  | write g off data =>
    intro c conn
    have cursor := streaming.cursor c conn
    have sent := List.prefix_iff_eq_take.mp (leaves c (List.mem_of_getElem? conn))
    have size : c.sent.length = c.pos := by
      rw [cursor.sent,List.length_take,Nat.min_eq_left cursor.inside]
    rw [size] at sent
    exact sent.symm.trans cursor.sent
  | _ => trivial

theorem producedStreaming {a} (clean : InSession fh a ∧ Leaves p a) (ok : Producer.step p a = some q)
    (streaming : Streaming fh i p) : Streaming fh i q :=
  Producer.Stream.stepStreaming streaming ⟨clean.1,leavesSent streaming clean.2⟩ ok

theorem arriveClean (fh : Nat) (p : Producer.State) (message : Producer.Name) :
    InSession fh (.arrive message) ∧ Leaves p (.arrive message) :=
  ⟨trivial,trivial⟩

theorem producedReleased {a} (session : InSession fh a) (ok : Producer.step p a = some q)
    (gone : p.handles = []) : q.handles = [] ∧ q.content = p.content := by
  cases Producer.stepped ok with
  | openHandle fresh => exact absurd session (by simp [InSession])
  | write handle => simp [gone] at handle
  | truncate handle => simp [gone] at handle
  | release known => simp [gone] at known
  | _ => exact ⟨gone,rfl⟩

theorem closedStays {a c} (ok : Producer.step p a = some q) (conn : p.conns[i]? = some c)
    (closed : Closed c) : ∃ d, q.conns[i]? = some d ∧ Closed d ∧ d.sent = c.sent := by
  cases Producer.stepped ok with
  | arrive asks =>
    have bound : i < p.conns.length := (List.getElem?_eq_some_iff.mp conn).1
    exact ⟨c,by rw [List.getElem?_append_left bound]; exact conn,closed,rfl⟩
  | @serve j b c0 c1 wc' here one =>
    by_cases same : j = i
    · subst same
      obtain rfl := Option.some.inj (here.symm.trans conn)
      have bound : j < p.conns.length := (List.getElem?_eq_some_iff.mp conn).1
      refine ⟨c1,by simp [bound],?_⟩
      cases one with
      | delete phase => exact ⟨Or.inr rfl,rfl⟩
      | chunk phase => rcases phase with h | h <;> simp [Closed,h] at closed
      | @eof phase ended next => rcases closed with h | h <;> simp [Producer.copied,h] at next
      | @sendError n k phase part inside silent next =>
        rcases closed with h | h <;> simp [Producer.copied,h] at next
      | found phase | missing phase | wake phase | close phase => simp [Closed,phase] at closed
    · exact ⟨c,by simpa [same] using conn,closed,rfl⟩
  | _ => exact ⟨c,conn,closed,rfl⟩

end Producing

/- A client whose copy is not at its end has not been told of the end of the stream, and the
stream ends where the connection is closed. -/
structure Receiving (p : Producer.State) (n : Node) : Prop where
  served : Served (n.heard p)
  ended : ∀ f ∈ n.client.file, f.ended = true → ∃ c, p.conns[n.conn]? = some c ∧ Closed c
  running : ∀ f ∈ n.client.file, f.ended = false → f.fdOpen = true ∧ ∀ c ∈ n.client.copiers, ¬ Past c

structure Session (fh : Nat) (s : State) : Prop where
  streaming : ∀ i, Streaming fh i s.producer
  receiving : ∀ n ∈ s.nodes, Receiving s.producer n

theorem sendingExtends {s : Client.State} {f : Client.File} {whole : Bytes} (sending : Sending s f)
    (more : f.whole <+: whole) (unended : f.ended = false)
    (running : f.fdOpen = true ∧ ∀ c ∈ s.copiers, ¬ Past c) :
    Sending ⟨some {f with whole := whole},s.content,s.copiers.map fun c => {c with wanted := some whole}⟩
      {f with whole := whole} := by
  refine ⟨?_,sending.sound,sending.bound.trans more.length_le,by simp [unended],by simp,?_,
    by simp [running.1],?_⟩
  · exact (levelWanted _).mpr (levelExtends sending.level more sending.bound)
  · intro c mem
    obtain ⟨d,old,rfl⟩ := List.mem_map.mp mem
    exact sending.unbroken d old
  · intro c mem past
    obtain ⟨d,old,rfl⟩ := List.mem_map.mp mem
    exact absurd past (running.2 d old)

theorem heardSame {p q : Producer.State} {n : Node} (same : sentOn q n.conn = sentOn p n.conn) :
    n.heard q = n.heard p := by
  simp only [Node.heard,same]

theorem receivingGrows {p q : Producer.State} {n : Node} {a} (ok : Producer.step p a = some q)
    (receiving : Receiving p n) : Receiving q n := by
  obtain ⟨served,ended,running⟩ := receiving
  refine ⟨?_,?_,running⟩
  · cases known : n.client.file with
    | none => simpa [Served,Node.heard,known] using served
    | some f =>
      cases atEnd : f.ended with
      | true =>
        obtain ⟨c,conn,closed⟩ := ended f known atEnd
        obtain ⟨d,later,_,same⟩ := closedStays ok conn closed
        rwa [heardSame (by rw [sentOnSome conn,sentOnSome later,same])]
      | false =>
        simp only [Served,Node.heard,known,Option.map_some] at served ⊢
        have quiet : ∀ c ∈ n.client.copiers.map fun c => {c with wanted := some (sentOn p n.conn)},
            ¬ Past c := by
          intro c mem
          obtain ⟨d,old,rfl⟩ := List.mem_map.mp mem
          exact (running f known atEnd).2 d old
        have longer := sendingExtends served (sentGrows ok) atEnd ⟨(running f known atEnd).1,quiet⟩
        simpa only [List.map_map,Function.comp_def] using longer
  · intro f known atEnd
    obtain ⟨c,conn,closed⟩ := ended f known atEnd
    obtain ⟨d,later,still,_⟩ := closedStays ok conn closed
    exact ⟨d,later,still⟩

def Held (s : Client.State) : Prop :=
  ∀ f ∈ s.file, f.ended = false → f.fdOpen = true ∧ ∀ c ∈ s.copiers, ¬ Past c

theorem heldStep {s a t} (served : Served s) (held : Held s) (ok : Client.step s a = some t) : Held t := by
  intro g now unended
  cases Client.stepped ok with
  | refused unknown => exact held g now unended
  | opened unknown =>
    simp only [Served,unknown] at served
    refine ⟨by simp [← Option.some.inj now,Client.openConnection],?_⟩
    simp [served,Past]
  | reused known =>
    obtain ⟨fd,quiet⟩ := held g now unended
    exact ⟨fd,Client.Answer.everyNew quiet (by simp [Past])⟩
  | @deliver f n known running =>
    obtain rfl := Option.some.inj now
    exact held f known unended
  | serverClose known => simp [← Option.some.inj now] at unended
  | @copy f i c b content' f' c' known here one =>
    obtain rfl := Option.some.inj now
    simp only [Served,known] at served
    have mine := List.mem_of_getElem? here
    cases one with
    | readEof phase eof =>
      rcases eof with ⟨atEnd,_⟩ | failed
      · simp [atEnd] at unended
      · simp [served.sound] at failed
    | answer phase => exact absurd (Or.inl phase) ((held _ known unended).2 c mine)
    | giveUp phase => exact absurd phase (served.unbroken c mine)
    | closeFd phase => exact absurd (Or.inr (Or.inl phase)) ((held f known unended).2 c mine)
    | _ =>
      obtain ⟨fd,quiet⟩ := held f known unended
      exact ⟨fd,Client.Answer.everySet quiet (by simp [Past])⟩
  | restart => simp at now

theorem heldHeard {p : Producer.State} {n : Node}
    (running : ∀ f ∈ n.client.file, f.ended = false → f.fdOpen = true ∧ ∀ c ∈ n.client.copiers, ¬ Past c) :
    Held (n.heard p) := by
  intro g known unended
  obtain ⟨f,old,rfl⟩ := Option.map_eq_some_iff.mp known
  refine ⟨(running f old unended).1,fun c mem => ?_⟩
  obtain ⟨d,here,rfl⟩ := List.mem_map.mp mem
  exact (running f old unended).2 d here

theorem cleanHeard {p : Producer.State} {n : Node} {a} (sound : Sound n a) (carried : Carried p n a) :
    Client.Answer.Clean (n.heard p) a := by
  rcases a with _ | _ | _ | ⟨_,b⟩ | _
  · exact absurd carried id
  · trivial
  · intro g known
    obtain ⟨f,old,rfl⟩ := Option.map_eq_some_iff.mp known
    exact carried.2 f old
  · cases b with
    | read => exact idleHeard sound
    | readEof => exact idleHeard sound
    | readError => exact sound
    | appendError => exact sound
    | _ => trivial
  · trivial

theorem endedBy {s a t} (ok : Client.step s a = some t) {g} (now : t.file = some g) (atEnd : g.ended = true) :
    a = .serverClose ∨ ∃ f, s.file = some f ∧ f.ended = true := by
  cases Client.stepped ok with
  | refused unknown => exact .inr ⟨g,now,atEnd⟩
  | opened unknown => simp [← Option.some.inj now,Client.openConnection] at atEnd
  | reused known => exact .inr ⟨g,now,atEnd⟩
  | deliver known running =>
    obtain rfl := Option.some.inj now
    simp [running] at atEnd
  | serverClose known => exact .inl rfl
  | @copy f i c b content' f' c' known here one =>
    obtain rfl := Option.some.inj now
    exact .inr ⟨f,known,by cases one <;> exact atEnd⟩
  | restart => simp at now

theorem receivingStep {p n a client} (receiving : Receiving p n)
    (clean : Client.Answer.Clean (n.heard p) a)
    (asked : ∀ chosen, a = .request chosen → chosen = some (sentOn p n.conn))
    (closed : a = .serverClose → ∃ c, p.conns[n.conn]? = some c ∧ Closed c)
    (one : Client.step (n.heard p) a = some client) : Receiving p {n with client := client} := by
  refine ⟨?_,?_,heldStep receiving.served (heldHeard receiving.running) one⟩
  · rw [heardStep one asked]
    exact Client.Answer.stepServed receiving.served clean one
  · intro g now atEnd
    rcases endedBy one now atEnd with rfl | ⟨f,known,before⟩
    · exact closed rfl
    · obtain ⟨h,old,rfl⟩ := Option.map_eq_some_iff.mp known
      exact receiving.ended h old before

theorem receivingConnect {p q : Producer.State} {n : Node} {message client} (receiving : Receiving p n)
    (unknown : n.client.file = none) (empty : n.client.content = [])
    (arrives : Producer.step p (.arrive message) = some q)
    (one : Client.step (n.heard p) (.request (some [])) = some client) :
    Receiving q ⟨client,p.conns.length⟩ := by
  have fresh : n.client.copiers = [] := by
    simpa [Served,Node.heard,unknown] using receiving.served
  refine ⟨?_,?_,heldStep receiving.served (heldHeard receiving.running) one⟩
  · rw [connectHeard unknown fresh arrives one]
    refine Client.Answer.stepServed receiving.served ?_ one
    simp [Client.Answer.Clean,Node.heard,unknown,empty]
  · intro g now atEnd
    rcases endedBy one now atEnd with wrong | ⟨f,known,_⟩
    · simp at wrong
    · simp [Node.heard,unknown] at known

theorem stepSession {fh s a t} (inv : Session fh s) (clean : Clean fh s a) (ok : step s a = some t) :
    Session fh t := by
  obtain ⟨streaming,receiving⟩ := inv
  have moved {k} {n' : Node} (new : Receiving s.producer n') :
      ∀ m ∈ s.nodes.set k n', Receiving s.producer m := by
    intro m mem
    rcases List.mem_or_eq_of_mem_set mem with old | rfl
    · exact receiving m old
    · exact new
  cases stepped ok with
  | produce own one =>
    exact ⟨fun i => producedStreaming clean one (streaming i),
      fun n mem => receivingGrows one (receiving n mem)⟩
  | refused here unknown => exact ⟨streaming,receiving⟩
  | connect here unknown arrives one =>
    refine ⟨fun i => producedStreaming (arriveClean fh _ _) arrives (streaming i),fun m mem => ?_⟩
    rcases List.mem_or_eq_of_mem_set mem with old | rfl
    · exact receivingGrows arrives (receiving m old)
    · exact receivingConnect (receiving _ (List.mem_of_getElem? here)) unknown (clean _ here unknown) arrives one
  | @reuse k n f reached client here known one =>
    refine ⟨streaming,moved (receivingStep (receiving n (List.mem_of_getElem? here)) ?_ (by simp) (by simp) one)⟩
    simp [Client.Answer.Clean,Node.heard,known]
  | @node k n a client here carried one =>
    refine ⟨streaming,moved (receivingStep (receiving n (List.mem_of_getElem? here))
      (cleanHeard (clean n here) carried) ?_ ?_ one)⟩
    · rintro chosen rfl
      exact absurd carried id
    · rintro rfl
      obtain ⟨c,conn,closed,_⟩ := carried.1
      exact ⟨c,conn,closed⟩

theorem startSession {key content writeComplete fh count}
    (absent : ∀ m, Asks key m → ¬ Found writeComplete m) :
    Session fh (boot (Producer.Stream.start key content writeComplete fh) count) := by
  refine ⟨fun i => Producer.Stream.startStreaming i absent,fun n mem => ?_⟩
  rw [List.eq_of_mem_replicate mem]
  exact ⟨rfl,by simp [Client.start],by simp [Client.start]⟩

theorem pastWhole {fh s n c} (inv : Session fh s) (mem : n ∈ s.nodes) (mine : c ∈ n.client.copiers)
    (past : Past c) : n.client.content = s.producer.content ∧ s.producer.handles = [] := by
  obtain ⟨served,ended,running⟩ := inv.receiving n mem
  cases known : n.client.file with
  | none =>
    have none : n.client.copiers = [] := by simpa [Served,Node.heard,known] using served
    simp [none] at mine
  | some f =>
    have atEnd : f.ended = true := by
      cases h : f.ended with
      | true => rfl
      | false => exact absurd past ((running f known h).2 c mine)
    obtain ⟨d,conn,closed⟩ := ended f known atEnd
    have cursor := (inv.streaming n.conn).cursor d conn
    have drained : Producer.Stream.Drained d := Or.inr closed
    simp only [Served,Node.heard,known,Option.map_some] at served
    have complete := served.past {c with wanted := some (sentOn s.producer n.conn)}
      (List.mem_map_of_mem mine) past
    have whole : n.client.content = sentOn s.producer n.conn := complete.content
    refine ⟨?_,cursor.released (Or.inr drained)⟩
    rw [whole,sentOnSome conn,cursor.sent,cursor.drained drained,List.take_length]

theorem stepReleased {fh s a t} (clean : Clean fh s a) (ok : step s a = some t)
    (gone : s.producer.handles = []) :
    t.producer.handles = [] ∧ t.producer.content = s.producer.content := by
  cases stepped ok with
  | produce own one => exact producedReleased clean.1 one gone
  | connect here unknown arrives one => exact producedReleased (arriveClean fh s.producer _).1 arrives gone
  | _ => exact ⟨gone,rfl⟩

theorem releasedBy {fh s a t} (clean : Clean fh s a) (ok : step s a = some t)
    (before : s.producer.handles ≠ []) (after : t.producer.handles = []) :
    a = .produce (.release fh) ∧ t.producer.content = s.producer.content := by
  cases stepped ok with
  | produce own one =>
    obtain ⟨rfl,same⟩ := Producer.Stream.handlesDropped clean.1 one before after
    exact ⟨rfl,same⟩
  | connect here unknown arrives one =>
    have wrong := (Producer.Stream.handlesDropped (arriveClean fh s.producer _).1 arrives before after).1
    simp at wrong
  | _ => exact absurd after before

theorem answeredWhole {key content writeComplete fh count} {steps : List Step} {s t : State} {k i : Nat}
    {n : Node} (absent : ∀ m, Asks key m → ¬ Found writeComplete m)
    (clean : Meets step (Clean fh) (boot (Producer.Stream.start key content writeComplete fh) count) steps)
    (ok : run step (boot (Producer.Stream.start key content writeComplete fh) count) steps = some s)
    (here : s.nodes[k]? = some n) (answer : step s (.node k (.copy i .answer)) = some t) :
    ∃ pre post r, steps = pre ++ .produce (.release fh) :: post ∧
      run step (boot (Producer.Stream.start key content writeComplete fh) count) pre = some r ∧
      n.client.content = r.producer.content := by
  have inv : Session fh s := Lib.Run.invariant (Clean fh) (Session fh) stepSession (startSession absent) clean ok
  have drained : ∃ c ∈ n.client.copiers, Past c := by
    cases stepped answer with
    | @node _ m _ client place carried one =>
      obtain rfl := Option.some.inj (place.symm.trans here)
      cases Client.stepped one with
      | @copy f _ c _ content' f' c' known found copied =>
        cases copied with
        | answer phase =>
          obtain ⟨d,old,rfl⟩ := List.mem_map.mp (List.mem_of_getElem? found)
          exact ⟨d,old,.inl phase⟩
  obtain ⟨c,mine,past⟩ := drained
  obtain ⟨whole,gone⟩ := pastWhole inv (List.mem_of_getElem? here) mine past
  obtain ⟨pre,a,post,u,v,split,front,middle,back,held,dropped⟩ :=
    Lib.Run.firstChange (fun s => s.producer.handles = []) (by simp [boot,Producer.Stream.start]) ok gone
  rw [split] at clean
  have late := (Lib.Run.meetsSplit clean front).2
  simp only [Meets,middle] at late
  obtain ⟨rfl,same⟩ := releasedBy late.1 middle held dropped
  have later : s.producer.handles = [] ∧ s.producer.content = v.producer.content := by
    refine Lib.Run.invariant (Clean fh)
      (fun w => w.producer.handles = [] ∧ w.producer.content = v.producer.content) ?_ ⟨dropped,rfl⟩ late.2 back
    rintro w b x ⟨none,kept⟩ guard one
    obtain ⟨still,equal⟩ := stepReleased guard one none
    exact ⟨still,equal.trans kept⟩
  exact ⟨pre,post,u,split,front,whole.trans (later.2.trans same)⟩

/- Half of the file is sent before the other half is written. -/
def fetched : List Step :=
  [.produce (.write 7 0 [65]),.request 0 (some [97]),.produce (.serve 0 (.chunk 1)),.node 0 (.deliver 1),
   .node 0 (.copy 0 (.read 1)),.node 0 (.copy 0 .append),.produce (.write 7 1 [66]),.produce (.release 7),
   .produce .recv,.produce .set,.produce (.serve 0 (.chunk 1)),.produce (.serve 0 .eof),
   .produce (.serve 0 .check),.produce (.serve 0 .eof),.produce (.serve 0 .close),.node 0 (.deliver 1),
   .node 0 .serverClose,.node 0 (.copy 0 (.read 1)),.node 0 (.copy 0 .append),.node 0 (.copy 0 .readEof)]

theorem fetchedWhole : ∃ s ∈ run step (boot (Producer.Stream.start [47,97] [] ∅ 7) 2) fetched,
    ∃ n ∈ s.nodes[0]?, n.client.content = [65,66] ∧
    ∃ pre post r, fetched = pre ++ .produce (.release 7) :: post ∧
      run step (boot (Producer.Stream.start [47,97] [] ∅ 7) 2) pre = some r ∧
      n.client.content = r.producer.content := by
  have reached : ∃ s ∈ run step (boot (Producer.Stream.start [47,97] [] ∅ 7) 2) fetched,
      ∃ n ∈ s.nodes[0]?, n.client.content = [65,66] ∧
        (step s (.node 0 (.copy 0 .answer))).isSome = true := by decide
  obtain ⟨s,ok,n,here,content,answers⟩ := reached
  obtain ⟨t,answer⟩ := Option.isSome_iff_exists.mp answers
  exact ⟨s,ok,n,here,content,answeredWhole (by simp [Found]) (by decide) ok here answer⟩

end F3.Transfer
