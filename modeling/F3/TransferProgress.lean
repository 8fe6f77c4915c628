import F3.TransferWhole

/-! Once the writer has released the file, a transfer can always be brought to its end: the
server finds the done message, sends what is left and closes, and the client appends it all and
answers. The steps that do it are steps of the server, the network and the client alone. -/
namespace F3.Transfer
open Lib (Bytes)
open Lib.Run (run Meets)
open Client.Copy (Idle)
open Client.Answer (Served Sending)
open Producer (Asks Found)
open Producer.Stream (InSession Recorded Stage Closed)

def Once (s : State) : Step → Prop
  | .request k _ => ∀ n ∈ s.nodes[k]?, n.client.file = none
  | .node _ .restart => False
  | _ => True
instance (s a) : Decidable (Once s a) := by
  unfold Once
  rcases a with _ | _ | ⟨_,one⟩ <;> try infer_instance
  rcases one <;> infer_instance

def Alone (fh : Nat) (s : State) (a : Step) : Prop := Clean fh s a ∧ Once s a
instance (fh s a) : Decidable (Alone fh s a) := by unfold Alone; infer_instance

def Flagged (p : Producer.State) : Prop :=
  Recorded p → p.key ∈ p.writeComplete ∨ ∃ c ∈ p.conns, c.phase = .finished

section Flag
variable {key : Producer.Name} {fh : Nat} {p q : Producer.State}

theorem sessionGrowing {a} (session : InSession fh a) : Producer.Stream.Growing fh p a := by
  rcases a with _ | _ | _ | _ | _ | _ | _ | ⟨_,one⟩
  · exact session
  · exact session
  · exact absurd session id
  · exact session
  · trivial
  · trivial
  · trivial
  · cases one <;> trivial

theorem servedFlagged {content wc c a c' wc'} (h : Producer.Served content wc c a c' wc') :
    c.phase ≠ .finished ∧ (wc' = wc ∨ c'.phase = .finished) := by
  cases h with
  | chunk phase => exact ⟨by rcases phase with h | h <;> simp [h],.inl rfl⟩
  | @eof phase ended next => exact ⟨fun h => by simp [Producer.copied,h] at next,.inl rfl⟩
  | @sendError n k phase part inside silent next =>
    exact ⟨fun h => by simp [Producer.copied,h] at next,.inl rfl⟩
  | delete phase => exact ⟨by simp [phase],.inr rfl⟩
  | found phase | missing phase | wake phase | close phase => exact ⟨by simp [phase],.inl rfl⟩

theorem flaggedStep {a} (session : Producer.Stream.Session key fh p) (inside : InSession fh a)
    (ok : Producer.step p a = some q) (flagged : Flagged p) : Flagged q := by
  intro done
  by_cases before : Recorded p
  · have flag := flagged before
    cases Producer.stepped ok with
    | set armed => simp [before.2.2] at armed
    | arrive asks =>
      rcases flag with present | ⟨c,mem,atEnd⟩
      · exact .inl present
      · exact .inr ⟨c,List.mem_append_left _ mem,atEnd⟩
    | @serve j b c0 c1 wc' conn one =>
      obtain ⟨running,kept⟩ := servedFlagged one
      have bound : j < p.conns.length := (List.getElem?_eq_some_iff.mp conn).1
      rcases kept with rfl | atEnd
      · rcases flag with present | ⟨c,mem,atEnd⟩
        · exact .inl present
        · obtain ⟨i,found⟩ := List.getElem?_of_mem mem
          have other : j ≠ i := by
            rintro rfl
            obtain rfl := Option.some.inj (found.symm.trans conn)
            exact running atEnd
          exact .inr ⟨c,List.mem_of_getElem? (i := i) (by simpa [other] using found),atEnd⟩
      · exact .inr ⟨c1,List.mem_of_getElem? (i := j) (by simp [bound]),atEnd⟩
    | _ => exact flag
  · obtain ⟨rfl,armed,_⟩ := Producer.Stream.recordedBy session (sessionGrowing inside) ok before done
    cases Producer.stepped ok with
    | set found =>
      obtain rfl := Option.some.inj (armed.symm.trans found)
      exact .inl (Finset.mem_insert_self _ _)

end Flag

structure Fetching (s : State) (n : Node) (f : Client.File) (copier : Client.Copier)
    (c : Producer.Conn) : Prop where
  nodes : s.nodes = [n]
  file : n.client.file = some f
  copiers : n.client.copiers = [copier]
  conn : n.conn = 0
  conns : s.producer.conns = [c]
  sound : c.broken = false

def Waiting (s : State) : Prop :=
  s.producer.conns = [] ∧ ∃ n, s.nodes = [n] ∧ n.client.file = none ∧ n.client.copiers = []

structure Single (key : Producer.Name) (fh : Nat) (s : State) : Prop where
  session : Session fh s
  written : Producer.Stream.Session key fh s.producer
  flagged : Flagged s.producer
  stage : Waiting s ∨ ∃ n f copier c, Fetching s n f copier c

theorem serveOne {c c0 : Producer.Conn} {j : Nat} (c1 : Producer.Conn) (conn : [c][j]? = some c0) :
    c0 = c ∧ [c].set j c1 = [c1] := by
  cases j with
  | zero => exact ⟨(Option.some.inj conn).symm,rfl⟩
  | succ j => simp at conn

theorem producedConns {fh : Nat} {p q : Producer.State} {a} (own : Own a) (inside : InSession fh a)
    (ok : Producer.step p a = some q) : (p.conns = [] → q.conns = []) ∧
      ∀ {c}, p.conns = [c] → c.broken = false → ∃ d, q.conns = [d] ∧ d.broken = false := by
  cases Producer.stepped ok with
  | arrive asks => exact absurd own id
  | @serve j b c0 c1 wc' conn one =>
    refine ⟨fun none => by simp [none] at conn,?_⟩
    intro c single sound
    rw [single] at conn
    obtain ⟨rfl,now⟩ := serveOne c1 conn
    refine ⟨c1,by rw [single,now],?_⟩
    cases one with
    | sendError => exact absurd inside id
    | _ => exact sound
  | _ => exact ⟨id,fun single sound => ⟨_,single,sound⟩⟩

theorem clientIdle {s a t} (ok : Client.step s a = some t) (unknown : s.file = none)
    (asked : ∀ chosen, a ≠ .request chosen) : a = .restart := by
  cases Client.stepped ok with
  | refused => exact absurd rfl (asked _)
  | opened => exact absurd rfl (asked _)
  | reused known => exact absurd rfl (asked _)
  | deliver known => simp [unknown] at known
  | serverClose known => simp [unknown] at known
  | copy known => simp [unknown] at known
  | restart => rfl

theorem clientSingle {s a t copier} (ok : Client.step s a = some t)
    (single : s.copiers = [copier]) (asked : ∀ chosen, a ≠ .request chosen) (again : a ≠ .restart) :
    ∃ g d, t.file = some g ∧ t.copiers = [d] := by
  cases Client.stepped ok with
  | refused => exact absurd rfl (asked _)
  | opened => exact absurd rfl (asked _)
  | reused => exact absurd rfl (asked _)
  | deliver => exact ⟨_,copier,rfl,single⟩
  | serverClose => exact ⟨_,copier,rfl,single⟩
  | @copy f i c b content' f' c' known here one =>
    refine ⟨f',c',rfl,?_⟩
    rw [single] at here ⊢
    cases i with
    | zero => rfl
    | succ i => simp at here
  | restart => exact absurd rfl again

theorem connsGrow {s a t} (ok : step s a = some t) :
    s.producer.conns.length ≤ t.producer.conns.length := by
  have grow {p q : Producer.State} {b} (one : Producer.step p b = some q) : p.conns.length ≤ q.conns.length := by
    cases Producer.stepped one with
    | arrive asks => simp
    | serve conn one => simp
    | _ => exact Nat.le_refl _
  cases stepped ok with
  | produce own one => exact grow one
  | connect here unknown arrives one => exact grow arrives
  | _ => exact Nat.le_refl _

theorem onlyNode {n m : Node} {k : Nat} (here : [n][k]? = some m) : k = 0 ∧ m = n := by
  cases k with
  | zero => exact ⟨rfl,(Option.some.inj here).symm⟩
  | succ k => simp at here

theorem stepSingle {key fh s a t} (inv : Single key fh s) (alone : Alone fh s a) (ok : step s a = some t) :
    Single key fh t := by
  obtain ⟨session,written,flagged,stage⟩ := inv
  have after := stepSession session alone.1 ok
  cases stepped ok with
  | @produce a producer own one =>
    have inside := alone.1.1
    refine ⟨after,Producer.Stream.stepSession written (sessionGrowing inside) one,
      flaggedStep written inside one flagged,?_⟩
    obtain ⟨none,single⟩ := producedConns own inside one
    rcases stage with ⟨no,rest⟩ | ⟨n,f,copier,c,fetching⟩
    · exact .inl ⟨none no,rest⟩
    · obtain ⟨d,now,sound⟩ := single fetching.conns fetching.sound
      exact .inr ⟨n,f,copier,d,fetching.nodes,fetching.file,fetching.copiers,fetching.conn,now,sound⟩
  | refused here unknown => exact ⟨after,written,flagged,stage⟩
  | @connect k n message producer client here unknown arrives one =>
    have inside := (arriveClean fh s.producer message).1
    refine ⟨after,Producer.Stream.stepSession written (sessionGrowing inside) arrives,
      flaggedStep written inside arrives flagged,?_⟩
    rcases stage with ⟨no,m,nodes,idle,fresh⟩ | ⟨m,f,copier,c,fetching⟩
    · rw [nodes] at here
      obtain ⟨rfl,rfl⟩ := onlyNode here
      cases Producer.stepped arrives with
      | arrive asks =>
        refine .inr ⟨⟨client,0⟩,?_⟩
        cases Client.stepped one with
        | opened none =>
          refine ⟨_,⟨some [],.reading⟩,⟨message,0,[],false,.copying⟩,?_,rfl,?_,rfl,?_,rfl⟩
          · rw [nodes,no]
            rfl
          · simp only [Node.heard,fresh]
            rfl
          · simp [no]
        | reused known => simp [Node.heard,unknown] at known
    · rw [fetching.nodes] at here
      obtain ⟨rfl,rfl⟩ := onlyNode here
      simp [fetching.file] at unknown
  | @reuse k n f reached client here known one => simp [alone.2 n here] at known
  | @node k n b client here carried one =>
    refine ⟨after,written,flagged,?_⟩
    have asked : ∀ chosen, b ≠ .request chosen := by
      rintro chosen rfl
      exact carried
    have again : b ≠ .restart := by
      rintro rfl
      exact alone.2
    rcases stage with ⟨no,m,nodes,idle,fresh⟩ | ⟨m,f,copier,c,fetching⟩
    · rw [nodes] at here
      obtain ⟨rfl,rfl⟩ := onlyNode here
      exact absurd (clientIdle one (by simp [Node.heard,idle]) asked) again
    · rw [fetching.nodes] at here
      obtain ⟨rfl,rfl⟩ := onlyNode here
      have only : (n.heard s.producer).copiers = [{copier with wanted := some (sentOn s.producer n.conn)}] := by
        simp [Node.heard,fetching.copiers]
      obtain ⟨g,d,file,copiers⟩ := clientSingle one only asked again
      exact .inr ⟨{n with client := client},g,d,c,by simp [fetching.nodes],file,copiers,fetching.conn,
        fetching.conns,fetching.sound⟩

section Rank

/- How many steps of a connection and of a goroutine are left when all goes well. -/
def connRank : Producer.Phase → Nat
  | .sleeping => 5
  | .copying => 4
  | .checking => 3
  | .draining => 2
  | .closing => 1
  | .deleting | .finished => 0

def copierRank : Client.Phase → Nat
  | .holding _ => 3
  | .reading => 2
  | .drained => 1
  | .broken | .closing | .finished => 0

def announceRank (p : Producer.State) : Nat := 2 * p.socket.length + p.handler.toList.length

def serveRank (p : Producer.State) : Nat :=
  (p.conns.map fun c => connRank c.phase + (p.content.length - c.pos)).sum

def fetchRank (size : Nat) (n : Node) : Nat :=
  (n.client.file.toList.map fun f =>
    (size - f.delivered) + (if f.ended then 0 else 1) + 2 * (size - f.taken)).sum +
  (n.client.copiers.map fun c => copierRank c.phase).sum

def rank (s : State) : Nat :=
  announceRank s.producer + serveRank s.producer +
    (s.nodes.map (fetchRank s.producer.content.length)).sum

def Nearer (fh : Nat) (s : State) : Prop := ∃ a t, Alone fh s a ∧ step s a = some t ∧ rank t < rank s

theorem announceNearer {key fh s} (inv : Single key fh s) (gone : s.producer.handles = [])
    (pending : ¬ Recorded s.producer) : Nearer fh s := by
  cases inv.written.stage with
  | writing handles => simp [gone] at handles
  | recorded done => exact absurd done pending
  | sent handles socket handler flag =>
    have absent : s.producer.key ∉ s.producer.writeComplete := fun h => flag _ (.inl rfl) (.inl h)
    refine ⟨.produce .recv,{s with producer := {s.producer with socket := [], handler := some s.producer.key}},
      ⟨⟨trivial,trivial⟩,trivial⟩,?_,?_⟩
    · simp [step,Own,Producer.step,Producer.fuseConnectionHandler,socket,handler,absent]
    · simp [rank,announceRank,serveRank,socket,handler]
  | taken handles socket handler flag =>
    refine ⟨.produce .set,{s with producer := {s.producer with
      handler := none, writeComplete := insert s.producer.key s.producer.writeComplete}},
      ⟨⟨trivial,trivial⟩,trivial⟩,?_,?_⟩
    · simp [step,Own,Producer.step,handler]
    · simp [rank,announceRank,serveRank,handler]

theorem serveNearer {fh s n f copier c c' b} (fetching : Fetching s n f copier c)
    (ok : Producer.handleConnection s.producer.content s.producer.writeComplete c b =
      some (c',s.producer.writeComplete)) (quiet : ∀ n k, b ≠ .sendError n k)
    (lower : connRank c'.phase + (s.producer.content.length - c'.pos) <
      connRank c.phase + (s.producer.content.length - c.pos)) : Nearer fh s := by
  refine ⟨.produce (.serve 0 b),{s with producer := {s.producer with conns := [c']}},⟨⟨?_,trivial⟩,trivial⟩,?_,?_⟩
  · cases b with
    | sendError n k => exact absurd rfl (quiet n k)
    | _ => trivial
  · simp [step,Own,Producer.step,fetching.conns,ok]
  · simp only [rank,announceRank,serveRank,fetching.conns,List.map_cons,List.map_nil,List.sum_cons,List.sum_nil]
    omega

theorem closeNearer {key fh s n f copier c} (inv : Single key fh s) (fetching : Fetching s n f copier c)
    (done : Recorded s.producer) (unclosed : ¬ Closed c) : Nearer fh s := by
  have conn : s.producer.conns[0]? = some c := by simp [fetching.conns]
  have cursor := (inv.session.streaming 0).cursor c conn
  have found : Found s.producer.writeComplete c.message := by
    rcases inv.flagged done with flag | ⟨d,mem,atEnd⟩
    · rcases cursor.asks with same | same
      · exact .inl (same ▸ flag)
      · exact .inr (same ▸ flag)
    · simp only [fetching.conns,List.mem_singleton] at mem
      exact absurd (Or.inr (mem ▸ atEnd)) unclosed
  have inside := cursor.inside
  -- A copy, in the loop or behind it, reads on or comes to the end.
  have copies {phase} (next : Producer.copied c.phase = some phase)
      (copying : c.phase = .copying ∨ c.phase = .draining) (lower : connRank phase < connRank c.phase) :
      Nearer fh s := by
    by_cases more : c.pos < s.producer.content.length
    · have rest : 0 < s.producer.content.length - c.pos ∧
          c.pos + (s.producer.content.length - c.pos) ≤ s.producer.content.length := by omega
      have ok : Producer.handleConnection s.producer.content s.producer.writeComplete c
          (.chunk (s.producer.content.length - c.pos)) =
          some ({c with pos := c.pos + (s.producer.content.length - c.pos),
                        sent := c.sent ++ (s.producer.content.drop c.pos).take
                          (s.producer.content.length - c.pos)},s.producer.writeComplete) := by
        rw [Producer.handleConnection,if_pos ⟨copying,fetching.sound,rest⟩]
      refine serveNearer fetching ok (by simp) ?_
      simp only
      omega
    · have ok : Producer.handleConnection s.producer.content s.producer.writeComplete c .eof =
          some ({c with phase := phase},s.producer.writeComplete) := by
        simp [Producer.handleConnection,Nat.not_lt.mp more,next]
      exact serveNearer fetching ok (by simp) (Nat.add_lt_add_right lower _)
  have moves {b phase} (ok : Producer.handleConnection s.producer.content s.producer.writeComplete c b =
      some ({c with phase := phase},s.producer.writeComplete)) (quiet : ∀ n k, b ≠ .sendError n k)
      (lower : connRank phase < connRank c.phase) : Nearer fh s :=
    serveNearer fetching ok quiet (Nat.add_lt_add_right lower _)
  cases phase : c.phase with
  | copying => exact copies (by rw [phase]; rfl) (.inl phase) (by simp [phase,connRank])
  | draining => exact copies (by rw [phase]; rfl) (.inr phase) (by simp [phase,connRank])
  | checking =>
    have ok : Producer.handleConnection s.producer.content s.producer.writeComplete c .check =
        some ({c with phase := .draining},s.producer.writeComplete) := by
      simp [Producer.handleConnection,phase,found]
    exact moves ok (by simp) (by simp [phase,connRank])
  | sleeping =>
    have ok : Producer.handleConnection s.producer.content s.producer.writeComplete c .wake =
        some ({c with phase := .copying},s.producer.writeComplete) := by
      simp [Producer.handleConnection,phase]
    exact moves ok (by simp) (by simp [phase,connRank])
  | closing =>
    have ok : Producer.handleConnection s.producer.content s.producer.writeComplete c .close =
        some ({c with phase := .deleting},s.producer.writeComplete) := by
      simp [Producer.handleConnection,phase]
    exact moves ok (by simp) (by simp [phase,connRank])
  | deleting => exact absurd (Or.inl phase) unclosed
  | finished => exact absurd (Or.inr phase) unclosed

theorem clientNearer {fh s n f copier c client} (a : Client.Step) (fetching : Fetching s n f copier c)
    (carried : Carried s.producer n a) (sound : Sound n a) (again : a ≠ .restart)
    (one : Client.step (n.heard s.producer) a = some client)
    (lower : fetchRank s.producer.content.length {n with client := client} <
      fetchRank s.producer.content.length n) : Nearer fh s := by
  refine ⟨.node 0 a,{s with nodes := [{n with client := client}]},⟨?_,?_⟩,?_,?_⟩
  · intro m here
    simp only [fetching.nodes] at here
    exact (onlyNode here).2 ▸ sound
  · cases a with
    | restart => exact absurd rfl again
    | _ => trivial
  · simp [step,fetching.nodes,carried,one]
  · simpa [rank,fetching.nodes] using lower

def answered (c : Client.Copier) : Bool := match c.phase with
  | .closing | .finished => true
  | _ => false

structure Offered (s : State) (n : Node) (f : Client.File) (copier : Client.Copier) : Prop where
  whole : sentOn s.producer n.conn = s.producer.content
  taken : f.taken ≤ f.delivered
  bound : f.delivered ≤ s.producer.content.length
  ended : f.ended = true → f.delivered = s.producer.content.length
  failed : f.failed = false
  opened : ∀ {chunk}, copier.phase = .holding chunk → f.fdOpen = true
  unbroken : copier.phase ≠ .broken

theorem closedOffered {key fh s n f copier c} (inv : Single key fh s) (fetching : Fetching s n f copier c)
    (closed : Closed c) : Offered s n f copier := by
  have conn : s.producer.conns[n.conn]? = some c := by simp [fetching.conn,fetching.conns]
  have cursor := (inv.session.streaming n.conn).cursor c conn
  have whole : sentOn s.producer n.conn = s.producer.content := by
    rw [sentOnSome conn,cursor.sent,cursor.drained (Or.inr closed),List.take_length]
  have sending := (inv.session.receiving n (by simp [fetching.nodes])).served
  simp only [Served,Node.heard,fetching.file,fetching.copiers,Option.map_some,List.map_cons,List.map_nil] at sending
  have unbroken := sending.unbroken _ (List.mem_singleton_self _)
  refine ⟨whole,sending.level.inside,whole ▸ sending.bound,whole ▸ sending.ended,sending.sound,?_,unbroken⟩
  intro chunk holding
  by_contra shut
  have idle := (sending.closed (by simpa using shut)).idle _ (List.mem_singleton_self _)
  simp [Client.Copy.holding,holding] at idle

section Offer
variable {fh : Nat} {s : State} {n : Node} {f : Client.File} {copier : Client.Copier} {c : Producer.Conn}

theorem Offered.heard (offered : Offered s n f copier) (fetching : Fetching s n f copier c) :
    n.heard s.producer = ⟨some {f with whole := s.producer.content},n.client.content,
      [{copier with wanted := some s.producer.content}]⟩ := by
  simp [Node.heard,fetching.file,fetching.copiers,offered.whole]

theorem Offered.arrives (offered : Offered s n f copier) (fetching : Fetching s n f copier c)
    (closed : Closed c) (running : f.ended = false) : Nearer fh s := by
  have bound := offered.bound
  by_cases short : f.delivered < s.producer.content.length
  · have ok : Client.step (n.heard s.producer) (.deliver (s.producer.content.length - f.delivered)) =
        some ⟨some ⟨s.producer.content,s.producer.content.length,f.taken,f.ended,f.failed,f.fdOpen⟩,
          n.client.content,[{copier with wanted := some s.producer.content}]⟩ := by
      simp [offered.heard fetching,Client.step,running,bound]
    refine clientNearer (.deliver _) fetching trivial trivial (by simp) ok ?_
    simp only [fetchRank,fetching.file,fetching.copiers,Option.toList_some,List.map_cons,List.map_nil,
      List.sum_cons,List.sum_nil]
    omega
  · have ok : Client.step (n.heard s.producer) .serverClose =
        some ⟨some ⟨s.producer.content,f.delivered,f.taken,true,f.failed,f.fdOpen⟩,
          n.client.content,[{copier with wanted := some s.producer.content}]⟩ := by
      simp [offered.heard fetching,Client.step]
    have carried : Carried s.producer n .serverClose := by
      refine ⟨⟨c,by simp [fetching.conn,fetching.conns],closed,fetching.sound⟩,fun g known => ?_⟩
      obtain rfl := Option.some.inj (fetching.file.symm.trans known)
      rw [offered.whole]
      omega
    refine clientNearer _ fetching carried trivial (by simp) ok ?_
    simp [fetchRank,fetching.file,fetching.copiers,running]

theorem Offered.copies (offered : Offered s n f copier) (fetching : Fetching s n f copier c)
    {b content' f' copier'} (allowed : Sound n (.copy 0 b))
    (one : Client.copyStep n.client.content {f with whole := s.producer.content}
      {copier with wanted := some s.producer.content} b = some (content',f',copier'))
    (lower : fetchRank s.producer.content.length {n with client := ⟨some f',content',[copier']⟩} <
      fetchRank s.producer.content.length n) : Nearer fh s := by
  refine clientNearer (.copy 0 b) fetching trivial allowed (by simp) ?_ lower
  simp [offered.heard fetching,Client.step,one]

theorem Offered.takesIn (offered : Offered s n f copier) (fetching : Fetching s n f copier c)
    (ended : f.ended = true) (waiting : answered copier = false) : Nearer fh s := by
  obtain ⟨wanted,phase⟩ := copier
  cases phase with
  | reading =>
    have idle : Idle n.client.copiers := by simp [Idle,fetching.copiers,Client.Copy.holding]
    by_cases more : f.taken < f.delivered
    · have bound := offered.bound
      have rest : 0 < f.delivered - f.taken ∧ f.taken + (f.delivered - f.taken) ≤ f.delivered := by omega
      refine offered.copies fetching (b := .read (f.delivered - f.taken)) idle
        (if_pos ⟨rfl,offered.failed,rest⟩) ?_
      simp only [fetchRank,fetching.file,fetching.copiers,Option.toList_some,List.map_cons,List.map_nil,
        List.sum_cons,List.sum_nil,copierRank]
      omega
    · have level : f.taken = f.delivered := Nat.le_antisymm offered.taken (Nat.not_lt.mp more)
      refine offered.copies fetching (b := .readEof) idle (if_pos ⟨rfl,.inl ⟨ended,level⟩⟩) ?_
      simp [fetchRank,fetching.file,fetching.copiers,copierRank]
  | holding chunk =>
    refine offered.copies fetching (b := .append) trivial (if_pos (offered.opened rfl)) ?_
    simp [fetchRank,fetching.file,fetching.copiers,copierRank]
  | drained =>
    refine offered.copies fetching (b := .answer) trivial rfl ?_
    simp [fetchRank,fetching.file,fetching.copiers,copierRank]
  | broken => exact absurd rfl offered.unbroken
  | closing => simp [answered] at waiting
  | finished => simp [answered] at waiting

end Offer

theorem fetchNearer {key fh s n f copier c} (inv : Single key fh s) (fetching : Fetching s n f copier c)
    (closed : Closed c) (waiting : answered copier = false) : Nearer fh s := by
  have offered := closedOffered inv fetching closed
  by_cases running : f.ended = false
  · exact offered.arrives fetching closed running
  · exact offered.takesIn fetching (by simpa using running) waiting

end Rank

structure Going (key : Producer.Name) (fh : Nat) (content : Bytes) (s : State) : Prop where
  single : Single key fh s
  released : s.producer.handles = []
  content : s.producer.content = content
  serving : ∃ n f copier c, Fetching s n f copier c

def Answered (s : State) : Prop := ∃ n c, s.nodes = [n] ∧ n.client.copiers = [c] ∧ answered c

theorem goingNearer {key fh content s} (now : Going key fh content s) (unmet : ¬ Answered s) :
    ∃ a t, Alone fh s a ∧ step s a = some t ∧ Going key fh content t ∧ rank t < rank s := by
  obtain ⟨single,released,same,n,f,copier,c,fetching⟩ := now
  have nearer : Nearer fh s := by
    by_cases done : Recorded s.producer
    · by_cases closed : Closed c
      · refine fetchNearer single fetching closed ?_
        by_contra atEnd
        exact unmet ⟨n,copier,fetching.nodes,fetching.copiers,by simpa using atEnd⟩
      · exact closeNearer single fetching done closed
    · exact announceNearer single released done
  obtain ⟨a,t,allowed,one,lower⟩ := nearer
  have after := stepSingle single allowed one
  obtain ⟨still,kept⟩ := stepReleased allowed.1 one released
  refine ⟨a,t,allowed,one,⟨after,still,kept.trans same,?_⟩,lower⟩
  rcases after.stage with ⟨none,_⟩ | fetched
  · have grow := connsGrow one
    simp [none,fetching.conns] at grow
  · exact fetched

theorem answeredPast {c : Client.Copier} (done : answered c) : Client.Answer.Past c := by
  unfold answered at done
  split at done
  · exact .inr (.inl (by assumption))
  · exact .inr (.inr (by assumption))
  · contradiction

theorem transferCompletes {key content writeComplete fh} {steps : List Step} {s : State} {n : Node}
    (absent : ∀ m, Asks key m → ¬ Found writeComplete m)
    (alone : Meets step (Alone fh) (boot (Producer.Stream.start key content writeComplete fh) 1) steps)
    (ok : run step (boot (Producer.Stream.start key content writeComplete fh) 1) steps = some s)
    (gone : s.producer.handles = []) (here : s.nodes = [n]) (asked : n.client.file ≠ none) :
    ∃ rest t m c, Meets step (Alone fh) s rest ∧ run step s rest = some t ∧ t.nodes = [m] ∧
      m.client.copiers = [c] ∧ answered c ∧ m.client.content = s.producer.content := by
  have first : Single key fh (boot (Producer.Stream.start key content writeComplete fh) 1) :=
    ⟨startSession absent,Producer.Stream.startSession absent,
      fun done => by simp [Recorded,boot,Producer.Stream.start] at done,
      .inl ⟨rfl,_,rfl,rfl,rfl⟩⟩
  have inv : Single key fh s := Lib.Run.invariant (Alone fh) (Single key fh) stepSingle first alone ok
  have start : Going key fh s.producer.content s := by
    refine ⟨inv,gone,rfl,?_⟩
    rcases inv.stage with ⟨_,m,nodes,idle,_⟩ | fetching
    · obtain rfl : m = n := by simpa [nodes] using here
      exact absurd idle asked
    · exact fetching
  obtain ⟨rest,t,meets,ran,going,m,c,nodes,copiers,done⟩ :=
    Lib.Run.reaches (Alone fh) (Going key fh s.producer.content) Answered rank goingNearer start
  refine ⟨rest,t,m,c,meets,ran,nodes,copiers,done,?_⟩
  rw [← going.content]
  exact (pastWhole going.single.session (by simp [nodes]) (by simp [copiers]) (answeredPast done)).1

/- The server sleeps, and the client has part of the file, when the writer is done. -/
def halfway : List Step :=
  [.produce (.write 7 0 [65]),.request 0 (some [97]),.produce (.serve 0 (.chunk 1)),.produce (.serve 0 .eof),
   .produce (.serve 0 .check),.node 0 (.deliver 1),.node 0 (.copy 0 (.read 1)),.produce (.write 7 1 [66]),
   .produce (.release 7)]

theorem halfwayCompletes : ∃ s ∈ run step (boot (Producer.Stream.start [47,97] [] ∅ 7) 1) halfway,
    s.producer.content = [65,66] ∧
    ∃ rest t m c, Meets step (Alone 7) s rest ∧ run step s rest = some t ∧ t.nodes = [m] ∧
      m.client.copiers = [c] ∧ answered c ∧ m.client.content = s.producer.content := by
  have reached : ∃ s ∈ run step (boot (Producer.Stream.start [47,97] [] ∅ 7) 1) halfway,
      s.producer.content = [65,66] ∧ s.producer.handles = [] ∧
      ∃ n ∈ s.nodes[0]?, s.nodes = [n] ∧ n.client.file ≠ none := by decide
  obtain ⟨s,ok,content,gone,n,_,here,asked⟩ := reached
  exact ⟨s,ok,content,transferCompletes (by simp [Found]) (by decide) ok gone here asked⟩

end F3.Transfer
