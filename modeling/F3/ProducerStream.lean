import F3.Producer

/-! One write session streamed while it is written. The server's cursor only moves
forward, so a byte that is written again after the cursor passed it is lost to the
receiver: this is where the stream and the released content come apart. -/
namespace F3.Producer.Stream
open Lib (Bytes)
open Lib.Run (run Meets)

def start (key : Name) (content : Bytes) (writeComplete : Finset Name) (fh : Nat) : State :=
  ⟨key,false,content,[⟨fh,true⟩],[],none,writeComplete,[]⟩

/- The steps of the session: its writes and its release, the done notification on
its way into the map, and the goroutines of the server with no socket error. -/
def InSession (fh : Nat) : Step → Prop
  | .write g _ _ => g = fh
  | .release g => g = fh
  | .openHandle _ _ => False
  | .truncate _ _ => False
  | .serve _ (.sendError _ _) => False
  | _ => True
instance (fh a) : Decidable (InSession fh a) := by
  unfold InSession
  rcases a with _ | _ | _ | _ | _ | _ | _ | ⟨_,one⟩ <;> try infer_instance
  rcases one <;> infer_instance

def LeavesSent (i : Nat) (s : State) : Step → Prop
  | .write _ off data => ∀ c ∈ s.conns[i]?,
      (s.content.pwrite off data).take c.pos = s.content.take c.pos
  | _ => True
instance (i s a) : Decidable (LeavesSent i s a) := by
  unfold LeavesSent
  rcases a <;> infer_instance

def Released (c : Conn) : Prop :=
  c.phase = .draining ∨ c.phase = .closing ∨ c.phase = .deleting ∨ c.phase = .finished

def Drained (c : Conn) : Prop :=
  c.phase = .closing ∨ c.phase = .deleting ∨ c.phase = .finished

def Closed (c : Conn) : Prop := c.phase = .deleting ∨ c.phase = .finished
instance (c) : Decidable (Closed c) := by unfold Closed; infer_instance

structure Cursor (key : Name) (content : Bytes) (handles : List Handle) (c : Conn) : Prop where
  asks : Asks key c.message
  sent : c.sent = content.take c.pos
  inside : c.pos ≤ content.length
  released : Released c → handles = []
  drained : Drained c → c.pos = content.length

/- A done message that is on its way, or a flag that a connection of the file can
find, exists only once the session's handle is released. -/
def Evidence (s : State) : Prop :=
  s.socket ≠ [] ∨ s.handler ≠ none ∨ ∃ m, Asks s.key m ∧ Found s.writeComplete m

structure Streaming (fh i : Nat) (s : State) : Prop where
  handles : s.handles = [⟨fh,true⟩] ∨ s.handles = []
  evidence : Evidence s → s.handles = []
  messages : (∀ m ∈ s.socket, m = s.key) ∧ ∀ m ∈ s.handler, m = s.key
  cursor : ∀ c ∈ s.conns[i]?, Cursor s.key s.content s.handles c

theorem startStreaming {key content writeComplete fh} (i : Nat)
    (absent : ∀ m, Asks key m → ¬ Found writeComplete m) :
    Streaming fh i (start key content writeComplete fh) := by
  refine ⟨Or.inl rfl,?_,by simp [start],by simp [start]⟩
  rintro (h | h | ⟨m,asks,found⟩)
  · exact absurd rfl h
  · exact absurd rfl h
  · exact absurd found (absent m asks)

theorem evidenceSubset {s : State} {wc' : Finset Name} {conns} (less : wc' ⊆ s.writeComplete)
    (h : Evidence {s with writeComplete := wc', conns := conns}) : Evidence s := by
  rcases h with h | h | ⟨m,asks,found⟩
  · exact Or.inl h
  · exact Or.inr (Or.inl h)
  · exact Or.inr (Or.inr ⟨m,asks,found.imp (fun x => less x) (fun x => less x)⟩)

theorem servedCursor {s : State} {c a c' wc'}
    (h : Served s.content s.writeComplete c a c' wc') (noError : ∀ n k, a ≠ .sendError n k)
    (flag : (∃ m, Asks s.key m ∧ Found s.writeComplete m) → s.handles = [])
    (cursor : Cursor s.key s.content s.handles c) : Cursor s.key s.content s.handles c' := by
  cases h with
  | @chunk n phase sound positive inside =>
    refine ⟨cursor.asks,?_,inside,cursor.released,?_⟩
    · show c.sent ++ (s.content.drop c.pos).take n = s.content.take (c.pos + n)
      rw [cursor.sent]
      exact Bytes.takeNext s.content c.pos n
    · intro drained
      rcases phase with h | h <;> simp [Drained,h] at drained
  | @eof phase ended next =>
    have whole : c.pos = s.content.length := Nat.le_antisymm cursor.inside ended
    refine ⟨cursor.asks,cursor.sent,cursor.inside,?_,fun _ => whole⟩
    intro released
    cases old : c.phase <;> simp [copied,old] at next
    · simp [Released,← next] at released
    · exact cursor.released (by simp [Released,old])
  | @sendError n k phase => exact absurd rfl (noError n k)
  | found phase found =>
    refine ⟨cursor.asks,cursor.sent,cursor.inside,fun _ => flag ⟨_,cursor.asks,found⟩,?_⟩
    simp [Drained]
  | missing phase missing =>
    exact ⟨cursor.asks,cursor.sent,cursor.inside,by simp [Released],by simp [Drained]⟩
  | wake phase =>
    exact ⟨cursor.asks,cursor.sent,cursor.inside,by simp [Released],by simp [Drained]⟩
  | close phase =>
    exact ⟨cursor.asks,cursor.sent,cursor.inside,
      fun _ => cursor.released (by simp [Released,phase]),
      fun _ => cursor.drained (by simp [Drained,phase])⟩
  | delete phase =>
    exact ⟨cursor.asks,cursor.sent,cursor.inside,
      fun _ => cursor.released (by simp [Released,phase]),
      fun _ => cursor.drained (by simp [Drained,phase])⟩

theorem writeCursor {s : State} {c off data} (held : s.handles ≠ [])
    (leaves : (s.content.pwrite off data).take c.pos = s.content.take c.pos)
    (cursor : Cursor s.key s.content s.handles c) :
    Cursor s.key (s.content.pwrite off data) s.handles c := by
  refine ⟨cursor.asks,cursor.sent.trans leaves.symm,
    cursor.inside.trans (Bytes.pwriteLength s.content off data),cursor.released,?_⟩
  intro drained
  have released : Released c := Or.inr drained
  exact absurd (cursor.released released) held

theorem arrivedCursor {s : State} {i : Nat} {message} (asks : Asks s.key message)
    (cursor : ∀ c ∈ s.conns[i]?, Cursor s.key s.content s.handles c) :
    ∀ c ∈ (s.conns ++ [⟨message,0,[],false,.copying⟩])[i]?, Cursor s.key s.content s.handles c := by
  intro c conn
  have place : (s.conns ++ [⟨message,0,[],false,.copying⟩])[i]? = some c := conn
  rw [List.getElem?_append] at place
  split at place
  · exact cursor c place
  · rw [List.mem_singleton.mp (List.mem_of_getElem? place)]
    exact ⟨asks,by simp,Nat.zero_le _,by simp [Released],by simp [Drained]⟩

theorem setCursor {s : State} {i j : Nat} {c0 c1} (conn : s.conns[j]? = some c0)
    (kept : Cursor s.key s.content s.handles c0 → Cursor s.key s.content s.handles c1)
    (cursor : ∀ c ∈ s.conns[i]?, Cursor s.key s.content s.handles c) :
    ∀ c ∈ (s.conns.set j c1)[i]?, Cursor s.key s.content s.handles c := by
  intro c found
  by_cases here : j = i
  · subst here
    have bound : j < s.conns.length := (List.getElem?_eq_some_iff.mp conn).1
    have same : c1 = c := by simpa [List.getElem?_set,bound] using found
    subst c
    exact kept (cursor c0 conn)
  · exact cursor c (by simpa [List.getElem?_set,here] using found)

theorem stepStreaming {fh i s a t} (inv : Streaming fh i s)
    (guard : InSession fh a ∧ LeavesSent i s a) (ok : step s a = some t) : Streaming fh i t := by
  obtain ⟨session,leaves⟩ := guard
  cases stepped ok with
  | openHandle fresh => exact absurd session (by simp [InSession])
  | truncate handle => exact absurd session (by simp [InSession])
  | @write g off data handle =>
    have held : s.handles ≠ [] := List.ne_nil_of_mem handle
    exact ⟨inv.handles,inv.evidence,inv.messages,
      fun c conn => writeCursor held (leaves c conn) (inv.cursor c conn)⟩
  | @release g known =>
    have gone : s.handles.filter (fun h => h.fh ≠ g) = [] := by
      have same : g = fh := session
      rcases inv.handles with h | h <;> simp [h,same]
    refine ⟨Or.inr gone,fun _ => gone,⟨?_,inv.messages.2⟩,?_⟩
    · intro m mem
      by_cases nd : s.needsDownload
      · exact inv.messages.1 m (by simpa [nd] using mem)
      · have split : m ∈ s.socket ∨ m = s.key := by simpa [nd] using mem
        exact split.elim (inv.messages.1 m) id
    · intro c conn
      have cursor := inv.cursor c conn
      exact ⟨cursor.asks,cursor.sent,cursor.inside,fun _ => gone,cursor.drained⟩
  | known idle next present =>
    have first := inv.evidence (Or.inl (by simp [next]))
    refine ⟨inv.handles,fun _ => first,⟨?_,by simp⟩,inv.cursor⟩
    intro m mem
    exact inv.messages.1 m (by simp [next,mem])
  | @fresh message rest idle next absent =>
    have first := inv.evidence (Or.inl (by simp [next]))
    refine ⟨inv.handles,fun _ => first,⟨?_,?_⟩,inv.cursor⟩
    · intro m mem
      exact inv.messages.1 m (by simp [next,mem])
    · intro m mem
      have same : message = m := by simpa using mem
      exact same ▸ inv.messages.1 message (by simp [next])
  | set armed =>
    have first := inv.evidence (Or.inr (Or.inl (by simp [armed])))
    exact ⟨inv.handles,fun _ => first,⟨inv.messages.1,by simp⟩,inv.cursor⟩
  | @arrive message asks =>
    exact ⟨inv.handles,inv.evidence,inv.messages,arrivedCursor asks inv.cursor⟩
  | @serve j b c0 c1 wc' conn one =>
    have quiet : ∀ n k, b ≠ .sendError n k := by
      intro n k same
      rw [same] at session
      exact session
    have flag : (∃ m, Asks s.key m ∧ Found s.writeComplete m) → s.handles = [] :=
      fun h => inv.evidence (Or.inr (Or.inr h))
    exact ⟨inv.handles,fun h => inv.evidence (evidenceSubset (servedSubset one) h),inv.messages,
      setCursor conn (servedCursor one quiet flag) inv.cursor⟩

theorem sessionMeets {fh i s} {steps : List Step} (session : ∀ a ∈ steps, InSession fh a)
    (leaves : Meets step (LeavesSent i) s steps) :
    Meets step (fun s a => InSession fh a ∧ LeavesSent i s a) s steps :=
  Lib.Run.meetsAnd (Lib.Run.meetsOfMem (fun a mem _ => session a mem)) leaves

theorem handlesDropped {fh s a t} (session : InSession fh a) (ok : step s a = some t)
    (before : s.handles ≠ []) (after : t.handles = []) : a = .release fh ∧ t.content = s.content := by
  cases stepped ok with
  | openHandle fresh => exact absurd session (by simp [InSession])
  | release known =>
    have same : _ = fh := session
    exact ⟨by rw [same],rfl⟩
  | _ => exact absurd after before

theorem releasedContent {fh s} {steps : List Step} {t} (session : ∀ a ∈ steps, InSession fh a)
    (gone : s.handles = []) (ok : run step s steps = some t) : t.content = s.content := by
  have kept : t.handles = [] ∧ t.content = s.content := by
    refine Lib.Run.invariant (fun _ a => InSession fh a)
      (fun u => u.handles = [] ∧ u.content = s.content) ?_ ⟨gone,rfl⟩
      (Lib.Run.meetsOfMem (fun a mem _ => session a mem)) ok
    intro u a v inv inSession one
    cases stepped one with
    | openHandle fresh => exact absurd inSession (by simp [InSession])
    | truncate handle => exact absurd inSession (by simp [InSession])
    | write handle => simp [inv.1] at handle
    | release known => exact ⟨by simp [inv.1],inv.2⟩
    | _ => exact inv
  exact kept.2

theorem streamEqualsRelease {key content writeComplete fh i} {steps : List Step} {t c}
    (absent : ∀ m, Asks key m → ¬ Found writeComplete m)
    (session : ∀ a ∈ steps, InSession fh a)
    (leaves : Meets step (LeavesSent i) (start key content writeComplete fh) steps)
    (ok : run step (start key content writeComplete fh) steps = some t)
    (conn : t.conns[i]? = some c) (closed : Closed c) :
    ∃ pre post r, steps = pre ++ .release fh :: post ∧
      run step (start key content writeComplete fh) pre = some r ∧ c.sent = r.content := by
  have inv : Streaming fh i t := Lib.Run.invariant _ (Streaming fh i) stepStreaming
    (startStreaming i absent) (sessionMeets session leaves) ok
  have cursor := inv.cursor c conn
  have drained : Drained c := Or.inr closed
  have gone : t.handles = [] := cursor.released (Or.inr drained)
  have whole : c.sent = t.content := by
    rw [cursor.sent,cursor.drained drained,List.take_length]
  obtain ⟨pre,a,post,u,v,split,front,middle,back,held,dropped⟩ :=
    Lib.Run.firstChange (fun s => s.handles = []) (by simp [start]) ok gone
  have inside : ∀ b ∈ a :: post, InSession fh b :=
    fun b mem => session b (by rw [split]; exact List.mem_append_right pre mem)
  obtain ⟨rfl,same⟩ := handlesDropped (inside a List.mem_cons_self) middle held dropped
  have later := releasedContent (fun b mem => inside b (List.mem_cons_of_mem _ mem)) dropped back
  exact ⟨pre,post,u,split,front,whole.trans (later.trans same)⟩

def inOrder : List Step :=
  [.arrive [47,97],.serve 0 .eof,.serve 0 .check,.write 7 0 [65,66],.serve 0 .wake,
   .serve 0 (.chunk 2),.write 7 2 [67],.release 7,.recv,.set,.serve 0 (.chunk 1),.serve 0 .eof,
   .serve 0 .check,.serve 0 .eof,.serve 0 .close]

theorem inOrderStream : ∃ pre post r, inOrder = pre ++ .release 7 :: post ∧
    run step (start [47,97] [] ∅ 7) pre = some r ∧ [65,66,67] = r.content :=
  streamEqualsRelease (c := ⟨[47,97],3,[65,66,67],false,.deleting⟩) (i := 0)
    (t := ⟨[47,97],false,[65,66,67],[],[],none,{[47,97]},[⟨[47,97],3,[65,66,67],false,.deleting⟩]⟩)
    (by simp [Found]) (by decide) (by decide) (by decide) rfl (by decide)

/- The second half of the file reaches it first. The server sends the hole as a
zero byte and is past it when the first half arrives. -/
def reordered : List Step :=
  [.arrive [47,97],.write 7 1 [66],.serve 0 (.chunk 2),.write 7 0 [65]]

def finish : List Step :=
  [.recv,.set,.serve 0 .eof,.serve 0 .check,.serve 0 .eof,.serve 0 .close]

theorem reorderedStreamDiffers : ∃ r t c,
    (∀ m, Asks [47,97] m → ¬ Found ∅ m) ∧
    (∀ a ∈ reordered ++ .release 7 :: finish, InSession 7 a) ∧
    run step (start [47,97] [] ∅ 7) reordered = some r ∧
    run step (start [47,97] [] ∅ 7) (reordered ++ .release 7 :: finish) = some t ∧
    t.conns[0]? = some c ∧ Closed c ∧ c.sent = [0,66] ∧ r.content = [65,66] := by
  refine ⟨⟨[47,97],false,[65,66],[⟨7,true⟩],[],none,∅,[⟨[47,97],2,[0,66],false,.copying⟩]⟩,
    ⟨[47,97],false,[65,66],[],[],none,{[47,97]},[⟨[47,97],2,[0,66],false,.deleting⟩]⟩,
    ⟨[47,97],2,[0,66],false,.deleting⟩,by simp [Found],?_⟩
  decide

end F3.Producer.Stream
