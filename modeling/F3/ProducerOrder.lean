import F3.ProducerStream

/-! One write session, with writes in any order: the positions of the file that a
connection is sent, and where it stops. The done message is in one place at a time, from
the release of the handle to its entry in the map. -/
namespace F3.Producer.Stream
open Lib (Bytes)
open Lib.Run (run Meets)

def Growing (fh : Nat) (s : State) : Step → Prop
  | .write g _ _ => g = fh
  | .truncate g size => g = fh ∧ s.content.length ≤ size
  | .release g => g = fh
  | .openHandle _ _ => False
  | .serve _ (.sendError _ _) => False
  | _ => True
instance (fh s a) : Decidable (Growing fh s a) := by
  unfold Growing
  rcases a with _ | _ | _ | _ | _ | _ | _ | ⟨_,one⟩ <;> try infer_instance
  rcases one <;> infer_instance

def cursor (i : Nat) (s : State) : Nat × Bytes := match s.conns[i]? with
  | some c => (c.pos,c.sent)
  | none => (0,[])

-- The bytes that a step reads from the file and sends on connection `i`, each with its position.
def sentBy (i : Nat) (s : State) : Step → List (UInt8 × Nat)
  | .serve j (.chunk n) => if j = i then (s.content.zipIdx.drop (cursor i s).1).take n else []
  | _ => []

def sends (i : Nat) : State → List Step → List (UInt8 × Nat)
  | _,[] => []
  | s,a::rest => sentBy i s a ++ match step s a with
      | some t => sends i t rest
      | none => []

-- The bytes `read` move the cursor on, one position for each, and go out.
structure Follows (old new : Nat × Bytes) (read : List (UInt8 × Nat)) : Prop where
  positions : read.map Prod.snd = List.range' old.1 read.length
  moved : new.1 = old.1 + read.length
  bytes : new.2 = old.2 ++ read.map Prod.fst

theorem followsNothing (old : Nat × Bytes) : Follows old old [] := ⟨rfl,rfl,by simp⟩

theorem followsAppend {a b c : Nat × Bytes} {one two} (first : Follows a b one) (second : Follows b c two) :
    Follows a c (one ++ two) where
  positions := by
    rw [List.map_append,first.positions,second.positions,first.moved,List.length_append,List.range'_append_1]
  moved := by rw [second.moved,first.moved,List.length_append,Nat.add_assoc]
  bytes := by rw [second.bytes,first.bytes,List.map_append,List.append_assoc]

theorem followsChunk {content : Bytes} {pos n : Nat} {sent : Bytes} (inside : pos + n ≤ content.length) :
    Follows (pos,sent) (pos + n,sent ++ (content.drop pos).take n) ((content.zipIdx.drop pos).take n) := by
  have size : ((content.zipIdx.drop pos).take n).length = n := by simp; omega
  refine ⟨?_,by rw [size],?_⟩
  · rw [size,List.map_take,List.map_drop,List.zipIdx_map_snd,List.drop_range',
      List.take_range'_of_length_ge (by omega)]
    simp
  · rw [List.map_take,List.map_drop,List.zipIdx_map_fst]

theorem cursorSet {i j : Nat} {s : State} {wc' c1} (c0) (conn : s.conns[j]? = some c0) :
    cursor i {s with conns := s.conns.set j c1, writeComplete := wc'} =
      if j = i then (c1.pos,c1.sent) else cursor i s := by
  have bound : j < s.conns.length := (List.getElem?_eq_some_iff.mp conn).1
  by_cases here : j = i
  · subst here
    simp [cursor,bound]
  · simp [cursor,here]

theorem stepFollows {fh i : Nat} {s : State} {a t} (session : Growing fh s a) (ok : step s a = some t) :
    Follows (cursor i s) (cursor i t) (sentBy i s a) := by
  cases stepped ok with
  | @arrive message asks =>
    have same : cursor i {s with conns := s.conns ++ [⟨message,0,[],false,.copying⟩]} = cursor i s := by
      by_cases old : i < s.conns.length
      · simp [cursor,List.getElem?_append_left old]
      · have beyond := Nat.not_lt.mp old
        simp only [cursor,List.getElem?_append_right beyond,List.getElem?_eq_none beyond]
        cases i - s.conns.length <;> rfl
    rw [same]
    exact followsNothing _
  | @serve j b c0 c1 wc' conn one =>
    rw [cursorSet c0 conn]
    by_cases here : j = i
    · subst here
      have old : cursor j s = (c0.pos,c0.sent) := by simp only [cursor,conn]
      rw [if_pos rfl,old]
      cases one with
      | @chunk n phase sound positive inside =>
        simp only [sentBy,if_pos,old]
        exact followsChunk inside
      | sendError => exact absurd session (by simp [Growing])
      | _ => exact followsNothing _
    · rw [if_neg here]
      have none : sentBy i s (.serve j b) = [] := by cases b <;> simp [sentBy,here]
      rw [none]
      exact followsNothing _
  | _ => exact followsNothing _

theorem runFollows {fh i : Nat} {s t : State} {steps : List Step} (meets : Meets step (Growing fh) s steps)
    (ok : run step s steps = some t) : Follows (cursor i s) (cursor i t) (sends i s steps) := by
  induction steps generalizing s with
  | nil =>
    cases Option.some.inj ok
    exact followsNothing _
  | cons a rest ih =>
    obtain ⟨u,one,ok⟩ := Lib.Run.runCons ok
    simp only [Meets,one] at meets
    simp only [sends,one]
    exact followsAppend (stepFollows meets.1 one) (ih meets.2 ok)

def Recorded (s : State) : Prop := s.handles = [] ∧ s.socket = [] ∧ s.handler = none

/- The stages of the session: written to, the done message on the socket, read by
fuseConnectionHandler, and recorded. -/
inductive Stage (fh : Nat) (s : State) : Prop where
  | writing (handles : s.handles = [⟨fh,true⟩]) (socket : s.socket = []) (handler : s.handler = none)
      (flag : ∀ m, Asks s.key m → ¬ Found s.writeComplete m)
  | sent (handles : s.handles = []) (socket : s.socket = [s.key]) (handler : s.handler = none)
      (flag : ∀ m, Asks s.key m → ¬ Found s.writeComplete m)
  | taken (handles : s.handles = []) (socket : s.socket = []) (handler : s.handler = some s.key)
      (flag : ∀ m, Asks s.key m → ¬ Found s.writeComplete m)
  | recorded (done : Recorded s)

structure Placed (s : State) (c : Conn) : Prop where
  asks : Asks s.key c.message
  inside : c.pos ≤ s.content.length
  released : Released c → Recorded s
  drained : Drained c → c.pos = s.content.length

structure Session (key : Name) (fh : Nat) (s : State) : Prop where
  named : s.key = key
  produced : s.needsDownload = false
  stage : Stage fh s
  placed : ∀ c ∈ s.conns, Placed s c

theorem foundRecorded {fh s m} (stage : Stage fh s) (asks : Asks s.key m) (found : Found s.writeComplete m) :
    Recorded s := by
  cases stage with
  | recorded done => exact done
  | writing _ _ _ flag => exact absurd found (flag m asks)
  | sent _ _ _ flag => exact absurd found (flag m asks)
  | taken _ _ _ flag => exact absurd found (flag m asks)

theorem placedGrows {s t : State} {c} (placed : Placed s c) (key : t.key = s.key)
    (grows : s.content.length ≤ t.content.length)
    (still : Recorded s → Recorded t ∧ t.content = s.content) : Placed t c := by
  refine ⟨key ▸ placed.asks,placed.inside.trans grows,fun h => (still (placed.released h)).1,?_⟩
  intro drained
  rw [(still (placed.released (Or.inr drained))).2]
  exact placed.drained drained

theorem placedServed {fh : Nat} {s : State} {c a c' wc'} (stage : Stage fh s)
    (h : Served s.content s.writeComplete c a c' wc') (noError : ∀ n k, a ≠ .sendError n k)
    (placed : Placed s c) : Placed s c' := by
  cases h with
  | @chunk n phase sound positive inside =>
    refine ⟨placed.asks,inside,placed.released,fun drained => ?_⟩
    rcases phase with h | h <;> simp [Drained,h] at drained
  | @eof phase ended next =>
    refine ⟨placed.asks,placed.inside,?_,fun _ => Nat.le_antisymm placed.inside ended⟩
    intro released
    cases old : c.phase <;> simp [copied,old] at next
    · simp [Released,← next] at released
    · exact placed.released (by simp [Released,old])
  | sendError => exact absurd rfl (noError _ _)
  | found phase found =>
    exact ⟨placed.asks,placed.inside,fun _ => foundRecorded stage placed.asks found,
      by simp [Drained]⟩
  | missing phase missing =>
    exact ⟨placed.asks,placed.inside,by simp [Released],by simp [Drained]⟩
  | wake phase => exact ⟨placed.asks,placed.inside,by simp [Released],by simp [Drained]⟩
  | close phase =>
    exact ⟨placed.asks,placed.inside,fun _ => placed.released (by simp [Released,phase]),
      fun _ => placed.drained (by simp [Drained,phase])⟩
  | delete phase =>
    exact ⟨placed.asks,placed.inside,fun _ => placed.released (by simp [Released,phase]),
      fun _ => placed.drained (by simp [Drained,phase])⟩

theorem stageServed {fh : Nat} {s : State} {conns wc'} (less : wc' ⊆ s.writeComplete) (stage : Stage fh s) :
    Stage fh {s with conns := conns, writeComplete := wc'} := by
  have fewer : ∀ m, Found wc' m → Found s.writeComplete m :=
    fun m found => found.imp (fun x => less x) (fun x => less x)
  cases stage with
  | writing handles socket handler flag =>
    exact .writing handles socket handler fun m asks found => flag m asks (fewer m found)
  | sent handles socket handler flag =>
    exact .sent handles socket handler fun m asks found => flag m asks (fewer m found)
  | taken handles socket handler flag =>
    exact .taken handles socket handler fun m asks found => flag m asks (fewer m found)
  | recorded done => exact .recorded done

theorem stageHeld {fh : Nat} {s : State} {h} (stage : Stage fh s) (held : h ∈ s.handles) :
    s.handles = [⟨fh,true⟩] ∧ s.socket = [] ∧ s.handler = none ∧
      ∀ m, Asks s.key m → ¬ Found s.writeComplete m := by
  cases stage with
  | writing handles socket handler flag => exact ⟨handles,socket,handler,flag⟩
  | sent handles => simp [handles] at held
  | taken handles => simp [handles] at held
  | recorded done => simp [done.1] at held

theorem stageSocket {fh : Nat} {s : State} {m rest} (stage : Stage fh s) (next : s.socket = m :: rest) :
    s.handles = [] ∧ m = s.key ∧ rest = [] ∧ ∀ m, Asks s.key m → ¬ Found s.writeComplete m := by
  cases stage with
  | writing _ socket => simp [socket] at next
  | sent handles socket handler flag =>
    obtain ⟨rfl,rfl⟩ := List.cons.inj (next.symm.trans socket)
    exact ⟨handles,rfl,rfl,flag⟩
  | taken _ socket => simp [socket] at next
  | recorded done => simp [done.2.1] at next

theorem stageHandler {fh : Nat} {s : State} {m} (stage : Stage fh s) (armed : s.handler = some m) :
    s.handles = [] ∧ s.socket = [] ∧ m = s.key := by
  cases stage with
  | writing _ _ handler => simp [handler] at armed
  | sent _ _ handler => simp [handler] at armed
  | taken handles socket handler => exact ⟨handles,socket,Option.some.inj (armed.symm.trans handler)⟩
  | recorded done => simp [done.2.2] at armed

theorem stepSession {key fh s a t} (inv : Session key fh s) (guard : Growing fh s a)
    (ok : step s a = some t) : Session key fh t := by
  obtain ⟨named,produced,stage,placed⟩ := inv
  cases stepped ok with
  | openHandle fresh => exact absurd guard (by simp [Growing])
  | @write g off data handle =>
    obtain ⟨handles,socket,handler,flag⟩ := stageHeld stage handle
    refine ⟨named,produced,.writing handles socket handler flag,fun c mem =>
      placedGrows (placed c mem) rfl (Bytes.pwriteLength s.content off data) fun done => ?_⟩
    exact absurd (done.1 ▸ handle) (by simp)
  | @truncate g size handle =>
    obtain ⟨handles,socket,handler,flag⟩ := stageHeld stage handle
    have grows : s.content.length ≤ (s.content.truncate size).length := by
      rw [Bytes.truncateSize]
      exact guard.2
    refine ⟨named,produced,.writing handles socket handler flag,fun c mem =>
      placedGrows (placed c mem) rfl grows fun done => ?_⟩
    exact absurd (done.1 ▸ handle) (by simp)
  | @release g known =>
    obtain ⟨h,held,_⟩ := known
    obtain ⟨handles,socket,handler,flag⟩ := stageHeld stage held
    have same : g = fh := guard
    refine ⟨named,produced,.sent ?_ ?_ handler flag,fun c mem =>
      placedGrows (placed c mem) rfl (Nat.le_refl _) fun done => ?_⟩
    · simp [handles,same]
    · simp [produced,socket]
    · exact absurd (done.1 ▸ held) (by simp)
  | @known message rest idle next present =>
    obtain ⟨_,rfl,_,flag⟩ := stageSocket stage next
    exact absurd (Or.inl present) (flag s.key (Or.inl rfl))
  | @fresh message rest idle next absent =>
    obtain ⟨handles,rfl,rfl,flag⟩ := stageSocket stage next
    refine ⟨named,produced,.taken handles rfl rfl flag,fun c mem =>
      placedGrows (placed c mem) rfl (Nat.le_refl _) fun done => ?_⟩
    exact absurd (done.2.1.symm.trans next) (by simp)
  | set armed =>
    obtain ⟨handles,socket,_⟩ := stageHandler stage armed
    exact ⟨named,produced,.recorded ⟨handles,socket,rfl⟩,fun c mem =>
      placedGrows (placed c mem) rfl (Nat.le_refl _) fun _ => ⟨⟨handles,socket,rfl⟩,rfl⟩⟩
  | @arrive message asks =>
    refine ⟨named,produced,stageServed (fun _ mem => mem) stage,fun c mem => ?_⟩
    rcases List.mem_append.mp mem with old | new
    · exact placedGrows (placed c old) rfl (Nat.le_refl _) fun done => ⟨done,rfl⟩
    · rw [List.mem_singleton.mp new]
      exact ⟨asks,Nat.zero_le _,by simp [Released],by simp [Drained]⟩
  | @serve j b c0 c1 wc' conn one =>
    have quiet : ∀ n k, b ≠ .sendError n k := by
      intro n k same
      rw [same] at guard
      exact guard
    refine ⟨named,produced,stageServed (servedSubset one) stage,fun c mem => ?_⟩
    have before : Placed s c := by
      rcases List.mem_or_eq_of_mem_set mem with old | rfl
      · exact placed c old
      · exact placedServed stage one quiet (placed c0 (List.mem_of_getElem? conn))
    exact placedGrows before rfl (Nat.le_refl _) fun done => ⟨done,rfl⟩

theorem startSession {key content writeComplete fh} (absent : ∀ m, Asks key m → ¬ Found writeComplete m) :
    Session key fh (start key content writeComplete fh) :=
  ⟨rfl,rfl,.writing rfl rfl rfl absent,by simp [start]⟩

theorem recordedBy {key fh s a t} (inv : Session key fh s) (guard : Growing fh s a) (ok : step s a = some t)
    (before : ¬ Recorded s) (after : Recorded t) :
    a = .set ∧ s.handler = some s.key ∧ t.content = s.content := by
  cases stepped ok with
  | openHandle fresh => exact absurd guard (by simp [Growing])
  | release known =>
    have empty : (if s.needsDownload then s.socket else s.socket ++ [s.key]) = [] := after.2.1
    simp [inv.produced] at empty
  | known idle next present =>
    obtain ⟨_,rfl,_,flag⟩ := stageSocket inv.stage next
    exact absurd (Or.inl present) (flag s.key (Or.inl rfl))
  | fresh => exact absurd after.2.2 (by simp)
  | set armed =>
    obtain ⟨_,_,rfl⟩ := stageHandler inv.stage armed
    exact ⟨rfl,armed,rfl⟩
  | _ => exact absurd after before

theorem recordedContent {fh s} {steps : List Step} {t} (meets : Meets step (Growing fh) s steps)
    (done : Recorded s) (ok : run step s steps = some t) : t.content = s.content := by
  have kept : Recorded t ∧ t.content = s.content := by
    refine Lib.Run.invariant (Growing fh) (fun u => Recorded u ∧ u.content = s.content) ?_ ⟨done,rfl⟩ meets ok
    rintro u a v ⟨done,same⟩ guard one
    cases stepped one with
    | openHandle fresh => exact absurd guard (by simp [Growing])
    | write handle => simp [done.1] at handle
    | truncate handle => simp [done.1] at handle
    | release known => simp [done.1] at known
    | known idle next => simp [done.2.1] at next
    | fresh idle next => simp [done.2.1] at next
    | set armed => simp [done.2.2] at armed
    | _ => exact ⟨done,same⟩
  exact kept.2

theorem sentInOrder {key content writeComplete fh i} {steps : List Step} {t c}
    (absent : ∀ m, Asks key m → ¬ Found writeComplete m)
    (meets : Meets step (Growing fh) (start key content writeComplete fh) steps)
    (ok : run step (start key content writeComplete fh) steps = some t) (conn : t.conns[i]? = some c) :
    c.sent = (sends i (start key content writeComplete fh) steps).map Prod.fst ∧
    (sends i (start key content writeComplete fh) steps).map Prod.snd = List.range c.sent.length ∧
    (Closed c → ∃ pre post r, steps = pre ++ .set :: post ∧
      run step (start key content writeComplete fh) pre = some r ∧ r.handler = some key ∧
      c.sent.length = r.content.length) := by
  have inv : Session key fh t := Lib.Run.invariant _ (Session key fh) stepSession (startSession absent) meets ok
  have placed := inv.placed c (List.mem_of_getElem? conn)
  have follows := @runFollows fh i _ t steps meets ok
  have first : cursor i (start key content writeComplete fh) = (0,[]) := by simp [cursor,start]
  have last : cursor i t = (c.pos,c.sent) := by simp only [cursor,conn]
  rw [first,last] at follows
  have sent : c.sent = (sends i (start key content writeComplete fh) steps).map Prod.fst := follows.bytes
  have size : c.sent.length = (sends i (start key content writeComplete fh) steps).length := by
    rw [sent,List.length_map]
  refine ⟨sent,by rw [size,List.range_eq_range',follows.positions],fun closed => ?_⟩
  have drained : Drained c := Or.inr closed
  obtain ⟨pre,a,post,u,v,split,front,middle,back,no,yes⟩ :=
    Lib.Run.firstChange Recorded (fun done => by simp [Recorded,start] at done) ok
      (placed.released (Or.inr drained))
  rw [split] at meets
  obtain ⟨early,late⟩ := Lib.Run.meetsSplit meets front
  simp only [Meets,middle] at late
  have between : Session key fh u :=
    Lib.Run.invariant _ (Session key fh) stepSession (startSession absent) early front
  obtain ⟨rfl,armed,same⟩ := recordedBy between late.1 middle no yes
  refine ⟨pre,post,u,split,front,between.named ▸ armed,?_⟩
  have moved : c.pos = 0 + (sends i (start key content writeComplete fh) steps).length := follows.moved
  rw [size,← Nat.zero_add (List.length _),← moved,placed.drained drained,recordedContent late.2 yes back,same]

theorem reorderedInOrder : ∃ t c, run step (start [47,97] [] ∅ 7) (reordered ++ .release 7 :: finish) = some t ∧
    t.conns[0]? = some c ∧ c.sent = [0,66] ∧
    sends 0 (start [47,97] [] ∅ 7) (reordered ++ .release 7 :: finish) = [(0,0),(66,1)] ∧
    [0,66] = (sends 0 (start [47,97] [] ∅ 7) (reordered ++ .release 7 :: finish)).map Prod.fst ∧
    (sends 0 (start [47,97] [] ∅ 7) (reordered ++ .release 7 :: finish)).map Prod.snd = List.range 2 ∧
    ∃ pre post r, reordered ++ .release 7 :: finish = pre ++ .set :: post ∧
      run step (start [47,97] [] ∅ 7) pre = some r ∧ r.handler = some [47,97] ∧ 2 = r.content.length := by
  have ran : run step (start [47,97] [] ∅ 7) (reordered ++ .release 7 :: finish) = some
      ⟨[47,97],false,[65,66],[],[],none,{[47,97]},[⟨[47,97],2,[0,66],false,.deleting⟩]⟩ := by decide
  have conn : [(⟨[47,97],2,[0,66],false,.deleting⟩ : Conn)][0]? = some ⟨[47,97],2,[0,66],false,.deleting⟩ := rfl
  obtain ⟨bytes,sent,recorded⟩ := sentInOrder (by simp [Found]) (by decide) ran conn
  exact ⟨_,_,ran,conn,rfl,by decide,bytes,sent,recorded (by decide)⟩

end F3.Producer.Stream
