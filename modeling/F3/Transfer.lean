import F3.ProducerStream
import F3.ClientAnswer

/-! One ID file on its way: the node that writes it, its transfer server, and any number of
consumer nodes whose transfer clients fetch it. What the server has sent on a connection
reaches the client in order, and the end of the stream behind the last byte, only of a
connection that did not fail. -/
namespace F3.Transfer
open Lib (Bytes)
open Lib.Run (run Meets)
open Client.Copy (Idle Level)

def sentOn (p : Producer.State) (i : Nat) : Bytes := (p.conns[i]?.map Producer.Conn.sent).getD []

/- The transfer client of a consumer node, for the path of the file, and the connection of
the server that its File reads. -/
structure Node where
  client : Client.State
  conn : Nat
  deriving DecidableEq

/- The client with what the server has sent so far in the place of the file it will have sent
in the end. -/
def Node.heard (p : Producer.State) (n : Node) : Client.State :=
  ⟨n.client.file.map fun f => {f with whole := sentOn p n.conn},n.client.content,
    n.client.copiers.map fun c => {c with wanted := some (sentOn p n.conn)}⟩

structure State where
  producer : Producer.State
  nodes : List Node
  deriving DecidableEq

/- The producer's driver and server; the request of a consumer's driver, by the message that
reaches the server or with the server out of reach; the network and the goroutines of a
consumer's client. -/
inductive Step where
  | produce (a : Producer.Step)
  | request (k : Nat) (reached : Option Producer.Name)
  | node (k : Nat) (a : Client.Step)
  deriving DecidableEq

def Own : Producer.Step → Prop
  | .arrive _ => False
  | _ => True
instance (a) : Decidable (Own a) := by
  unfold Own
  rcases a <;> infer_instance

def Carried (p : Producer.State) (n : Node) : Client.Step → Prop
  | .request _ => False
  | .serverClose => (∃ c ∈ p.conns[n.conn]?, Producer.Stream.Closed c ∧ c.broken = false) ∧
      ∀ f ∈ n.client.file, f.delivered = (sentOn p n.conn).length
  | _ => True
instance (p n a) : Decidable (Carried p n a) := by
  unfold Carried
  rcases a <;> infer_instance

def step (s : State) : Step → Option State
  | .produce a =>
      if Own a then do
        let producer ← Producer.step s.producer a
        some {s with producer := producer}
      else none
  | .request k reached => do
      let n ← s.nodes[k]?
      match n.client.file,reached with
      | none,none => some s
      | none,some message => do
          let producer ← Producer.step s.producer (.arrive message)
          let client ← Client.step (n.heard s.producer) (.request (some []))
          some ⟨producer,s.nodes.set k ⟨client,s.producer.conns.length⟩⟩
      | some _,_ => do
          let client ← Client.step (n.heard s.producer) (.request (some (sentOn s.producer n.conn)))
          some {s with nodes := s.nodes.set k {n with client := client}}
  | .node k a => do
      let n ← s.nodes[k]?
      if Carried s.producer n a then do
        let client ← Client.step (n.heard s.producer) a
        some {s with nodes := s.nodes.set k {n with client := client}}
      else none

def boot (producer : Producer.State) (count : Nat) : State :=
  ⟨producer,List.replicate count ⟨Client.start [],0⟩⟩

inductive Stepped : State → Step → State → Prop where
  | produce {s a producer} (own : Own a) (one : Producer.step s.producer a = some producer) :
      Stepped s (.produce a) {s with producer := producer}
  | refused {s k n} (here : s.nodes[k]? = some n) (unknown : n.client.file = none) :
      Stepped s (.request k none) s
  | connect {s k n message producer client} (here : s.nodes[k]? = some n)
      (unknown : n.client.file = none) (arrives : Producer.step s.producer (.arrive message) = some producer)
      (one : Client.step (n.heard s.producer) (.request (some [])) = some client) :
      Stepped s (.request k (some message)) ⟨producer,s.nodes.set k ⟨client,s.producer.conns.length⟩⟩
  | reuse {s k n f reached client} (here : s.nodes[k]? = some n) (known : n.client.file = some f)
      (one : Client.step (n.heard s.producer) (.request (some (sentOn s.producer n.conn))) = some client) :
      Stepped s (.request k reached) {s with nodes := s.nodes.set k {n with client := client}}
  | node {s k n a client} (here : s.nodes[k]? = some n) (carried : Carried s.producer n a)
      (one : Client.step (n.heard s.producer) a = some client) :
      Stepped s (.node k a) {s with nodes := s.nodes.set k {n with client := client}}

theorem stepped {s a t} (ok : step s a = some t) : Stepped s a t := by
  cases a with
  | produce a =>
    simp only [step] at ok
    split at ok <;> try contradiction
    rename_i own
    obtain ⟨producer,one,last⟩ := Option.bind_eq_some_iff.mp ok
    cases Option.some.inj last
    exact .produce own one
  | request k reached =>
    simp only [step] at ok
    obtain ⟨n,here,ok⟩ := Option.bind_eq_some_iff.mp ok
    split at ok
    · cases Option.some.inj ok
      exact .refused here (by assumption)
    · obtain ⟨producer,arrives,ok⟩ := Option.bind_eq_some_iff.mp ok
      obtain ⟨client,one,last⟩ := Option.bind_eq_some_iff.mp ok
      cases Option.some.inj last
      exact .connect here (by assumption) arrives one
    · obtain ⟨client,one,last⟩ := Option.bind_eq_some_iff.mp ok
      cases Option.some.inj last
      exact .reuse here (by assumption) one
  | node k a =>
    simp only [step] at ok
    obtain ⟨n,here,ok⟩ := Option.bind_eq_some_iff.mp ok
    split at ok <;> try contradiction
    rename_i carried
    obtain ⟨client,one,last⟩ := Option.bind_eq_some_iff.mp ok
    cases Option.some.inj last
    exact .node here carried one

section Sent
variable {p q : Producer.State} {i : Nat}

theorem sentOnSome {c} (conn : p.conns[i]? = some c) : sentOn p i = c.sent := by
  simp [sentOn,conn]

theorem servedSent {content wc c a c' wc'} (h : Producer.Served content wc c a c' wc') :
    c.sent <+: c'.sent := by
  cases h with
  | chunk => exact List.prefix_append _ _
  | sendError => exact List.prefix_append _ _
  | _ => exact List.prefix_refl _

theorem sentGrows {a} (ok : Producer.step p a = some q) : sentOn p i <+: sentOn q i := by
  cases Producer.stepped ok with
  | @arrive message asks =>
    by_cases old : i < p.conns.length
    · simp [sentOn,List.getElem?_append_left old]
    · simp [sentOn,List.getElem?_eq_none (Nat.not_lt.mp old)]
  | @serve j b c c' wc' conn one =>
    by_cases here : j = i
    · subst here
      have bound : j < p.conns.length := (List.getElem?_eq_some_iff.mp conn).1
      rw [sentOnSome conn,sentOnSome (c := c') (by simp [bound])]
      exact servedSent one
    · simp [sentOn,here]
  | _ => exact List.prefix_refl _

theorem sentNew {message} (ok : Producer.step p (.arrive message) = some q) :
    sentOn q p.conns.length = [] := by
  cases Producer.stepped ok with
  | arrive asks => simp [sentOn]

end Sent

structure Agrees (whole : Bytes) (s : Client.State) : Prop where
  file : ∀ f ∈ s.file, f.whole = whole
  copiers : ∀ c ∈ s.copiers, c.wanted = some whole

theorem heardAgrees (p : Producer.State) (n : Node) : Agrees (sentOn p n.conn) (n.heard p) := by
  constructor
  · intro f known
    obtain ⟨g,_,rfl⟩ := Option.map_eq_some_iff.mp known
    rfl
  · intro c mem
    obtain ⟨d,_,rfl⟩ := List.mem_map.mp mem
    rfl

theorem agreesHeard {p : Producer.State} {n : Node} (agrees : Agrees (sentOn p n.conn) n.client) :
    n.heard p = n.client := by
  obtain ⟨⟨file,content,copiers⟩,conn⟩ := n
  have same : file.map (fun f => {f with whole := sentOn p conn}) = file := by
    cases file with
    | none => rfl
    | some f => simp only [Option.map_some,← agrees.file f rfl]
  have each : copiers.map (fun c => {c with wanted := some (sentOn p conn)}) = copiers := by
    refine (List.map_congr_left fun c mem => ?_).trans (List.map_id copiers)
    simp only [← agrees.copiers c mem,id]
  simp only [Node.heard,same,each]

theorem copiedAgrees {content f c a content' f' c'} (one : Client.Copied content f c a content' f' c') :
    f'.whole = f.whole ∧ c'.wanted = c.wanted := by
  cases one <;> exact ⟨rfl,rfl⟩

theorem stepAgrees {whole s a t} (agrees : Agrees whole s) (ok : Client.step s a = some t)
    (asked : ∀ chosen, a = .request chosen → chosen = some whole) : Agrees whole t := by
  cases Client.stepped ok with
  | refused unknown => exact agrees
  | @opened w unknown =>
    obtain rfl : w = whole := Option.some.inj (asked _ rfl)
    exact ⟨fun f known => by simp [← Option.some.inj known,Client.openConnection],
      Client.Answer.everyNew agrees.copiers rfl⟩
  | @reused f chosen known => exact ⟨agrees.file,Client.Answer.everyNew agrees.copiers (asked _ rfl)⟩
  | @deliver f n known => exact ⟨fun g same => Option.some.inj same ▸ agrees.file f known,agrees.copiers⟩
  | @serverClose f known => exact ⟨fun g same => Option.some.inj same ▸ agrees.file f known,agrees.copiers⟩
  | @copy f i c b content' f' c' known here one =>
    obtain ⟨same,kept⟩ := copiedAgrees one
    refine ⟨fun g now => Option.some.inj now ▸ same.trans (agrees.file f known),?_⟩
    exact Client.Answer.everySet agrees.copiers (kept.trans (agrees.copiers c (List.mem_of_getElem? here)))
  | restart => exact ⟨fun _ none => by simp at none,by simp⟩

theorem heardStep {p n a client} (one : Client.step (Node.heard p n) a = some client)
    (asked : ∀ chosen, a = .request chosen → chosen = some (sentOn p n.conn)) :
    Node.heard p {n with client := client} = client :=
  agreesHeard (stepAgrees (heardAgrees p n) one asked)

theorem connectHeard {p q : Producer.State} {n : Node} {message client} (unknown : n.client.file = none)
    (fresh : n.client.copiers = []) (arrives : Producer.step p (.arrive message) = some q)
    (one : Client.step (n.heard p) (.request (some [])) = some client) :
    Node.heard q ⟨client,p.conns.length⟩ = client := by
  have before : Agrees [] (n.heard p) :=
    ⟨fun f known => by simp [Node.heard,unknown] at known,by simp [Node.heard,fresh]⟩
  have after := stepAgrees before one (by simp)
  rw [← sentNew arrives] at after
  exact agreesHeard after

section Prefix

structure Front (content : Bytes) (c : Producer.Conn) : Prop where
  sent : c.sent <+: content
  level : c.broken = false → c.pos = c.sent.length

/- No write and no truncation changes what has been sent. -/
def Leaves (p : Producer.State) : Producer.Step → Prop
  | .write _ off data => ∀ c ∈ p.conns, c.sent <+: p.content.pwrite off data
  | .truncate _ size => ∀ c ∈ p.conns, c.sent <+: p.content.truncate size
  | _ => True
instance (p a) : Decidable (Leaves p a) := by
  unfold Leaves
  rcases a <;> infer_instance

def Local (n : Node) : Client.Step → Prop
  | .copy _ (.read _) => Idle n.client.copiers
  | .copy _ (.appendError _) => False
  | .restart => n.client.content = []
  | _ => True
instance (n a) : Decidable (Local n a) := by
  unfold Local
  rcases a with _ | _ | _ | ⟨_,one⟩ | _ <;> try infer_instance
  rcases one <;> infer_instance

def Safe (s : State) : Step → Prop
  | .produce a => Leaves s.producer a
  | .request _ _ => True
  | .node k a => ∀ n ∈ s.nodes[k]?, Local n a
instance (s a) : Decidable (Safe s a) := by
  unfold Safe
  rcases a <;> infer_instance

def Following (p : Producer.State) (n : Node) : Prop :=
  Client.Copy.Prefixed (n.heard p) ∧ ∀ f ∈ n.client.file, f.delivered ≤ (sentOn p n.conn).length

structure Aligned (s : State) : Prop where
  front : ∀ c ∈ s.producer.conns, Front s.producer.content c
  following : ∀ n ∈ s.nodes, Following s.producer n

theorem sentNext {content : Bytes} {c : Producer.Conn} {n : Nat} (front : Front content c)
    (sound : c.broken = false) : c.sent ++ (content.drop c.pos).take n <+: content := by
  have taken := List.prefix_iff_eq_take.mp front.sent
  rw [taken,front.level sound,Bytes.takeNext]
  exact List.take_prefix _ _

theorem servedFront {content wc c a c' wc'} (h : Producer.Served content wc c a c' wc')
    (front : Front content c) : Front content c' := by
  cases h with
  | @chunk n phase sound positive inside =>
    refine ⟨sentNext front sound,fun _ => ?_⟩
    have level := front.level sound
    simp only [List.length_append,List.length_take,List.length_drop]
    omega
  | @sendError n k phase part inside silent next =>
    refine ⟨?_,by simp⟩
    by_cases sound : c.broken = false
    · exact sentNext front sound
    · rw [silent (by simpa using sound)]
      simpa using front.sent
  | _ => exact ⟨front.sent,front.level⟩

theorem producedFront {p q a} (ok : Producer.step p a = some q) (leaves : Leaves p a)
    (front : ∀ c ∈ p.conns, Front p.content c) : ∀ c ∈ q.conns, Front q.content c := by
  cases Producer.stepped ok with
  | write handle => exact fun c mem => ⟨leaves c mem,(front c mem).level⟩
  | truncate handle => exact fun c mem => ⟨leaves c mem,(front c mem).level⟩
  | arrive asks =>
    intro c mem
    rcases List.mem_append.mp mem with old | new
    · exact front c old
    · rw [List.mem_singleton.mp new]
      exact ⟨List.nil_prefix,fun _ => rfl⟩
  | serve conn one =>
    intro c mem
    rcases List.mem_or_eq_of_mem_set mem with old | rfl
    · exact front c old
    · exact servedFront one (front _ (List.mem_of_getElem? conn))
  | _ => exact front

theorem levelExtends {content copiers} {f : Client.File} {whole : Bytes} (level : Level content copiers f)
    (more : f.whole <+: whole) (inside : f.delivered ≤ f.whole.length) :
    Level content copiers {f with whole := whole} := by
  obtain ⟨rest,rfl⟩ := more
  have same : (f.whole ++ rest).take f.taken = f.whole.take f.taken :=
    List.take_append_of_le_length (level.inside.trans inside)
  obtain ⟨i,solo⟩ := level.solo
  exact ⟨⟨i,solo.others,fun fd => (solo.level fd).trans same.symm⟩,same.symm ▸ level.behind,level.inside⟩

theorem levelWanted {content f} {copiers : List Client.Copier} (wanted : Option Bytes) :
    Level content (copiers.map fun c => {c with wanted := wanted}) f ↔ Level content copiers f := by
  have at' (i : Nat) : Client.Copy.chunkAt (copiers.map fun c => {c with wanted := wanted}) i =
      Client.Copy.chunkAt copiers i := by
    simp only [Client.Copy.chunkAt,List.getElem?_map,Option.map_map]
    rfl
  constructor
  · rintro ⟨⟨i,others,level⟩,behind,inside⟩
    refine ⟨⟨i,fun j c found => ?_,at' i ▸ level⟩,behind,inside⟩
    exact others j {c with wanted := wanted} (by simp [found])
  · rintro ⟨⟨i,others,level⟩,behind,inside⟩
    refine ⟨⟨i,fun j c found => ?_,(at' i).symm ▸ level⟩,behind,inside⟩
    rw [List.getElem?_map] at found
    obtain ⟨d,old,rfl⟩ := Option.map_eq_some_iff.mp found
    exact others j d old

theorem prefixedHeard {p : Producer.State} {n : Node} {f} (known : n.client.file = some f) :
    Client.Copy.Prefixed (n.heard p) ↔
      Level n.client.content n.client.copiers {f with whole := sentOn p n.conn} := by
  simp only [Client.Copy.Prefixed,Node.heard,known,Option.map_some]
  exact levelWanted _

theorem followingGrows {p q : Producer.State} {n : Node} (more : sentOn p n.conn <+: sentOn q n.conn)
    (following : Following p n) : Following q n := by
  obtain ⟨prefixed,inside⟩ := following
  refine ⟨?_,fun f known => (inside f known).trans more.length_le⟩
  cases known : n.client.file with
  | none => simpa [Client.Copy.Prefixed,Node.heard,known] using prefixed
  | some f =>
    rw [prefixedHeard known] at prefixed ⊢
    exact levelExtends (f := {f with whole := sentOn p n.conn}) prefixed more (inside f known)

theorem idleHeard {p : Producer.State} {n : Node} (idle : Idle n.client.copiers) :
    Idle (n.heard p).copiers := by
  intro c mem
  obtain ⟨d,old,rfl⟩ := List.mem_map.mp mem
  exact idle d old

theorem deliveredInside {s a t} {bound : Nat} (ok : Client.step s a = some t)
    (whole : ∀ f ∈ s.file, f.delivered ≤ bound ∧ f.whole.length = bound) :
    ∀ f ∈ t.file, f.delivered ≤ bound := by
  intro g now
  cases Client.stepped ok with
  | refused unknown => exact (whole g now).1
  | opened unknown => simp [← Option.some.inj now,Client.openConnection]
  | @reused f chosen known => exact (whole g now).1
  | @deliver f n known running inside =>
    rw [← Option.some.inj now]
    exact (whole f known).2 ▸ inside
  | @serverClose f known => exact Option.some.inj now ▸ (whole f known).1
  | @copy f i c b content' f' c' known here one =>
    rw [← Option.some.inj now]
    cases one <;> exact (whole f known).1
  | restart => simp at now

theorem followingStep {p n a client} (following : Following p n) (guard : Local n a)
    (asked : ∀ chosen, a = .request chosen → chosen = some (sentOn p n.conn))
    (one : Client.step (n.heard p) a = some client) : Following p {n with client := client} := by
  obtain ⟨prefixed,inside⟩ := following
  refine ⟨?_,?_⟩
  · rw [heardStep one asked]
    by_cases again : a = .restart
    · subst again
      cases Client.stepped one with
      | restart => exact ⟨guard,rfl⟩
    · refine Client.Copy.stepPrefixed prefixed ⟨?_,?_⟩ one
      · rcases a with _ | _ | _ | ⟨_,b⟩ | _
        · trivial
        · trivial
        · trivial
        · cases b <;> trivial
        · exact absurd rfl again
      · rcases a with _ | _ | _ | ⟨_,b⟩ | _
        · trivial
        · trivial
        · trivial
        · cases b with
          | read => exact idleHeard guard
          | _ => trivial
        · trivial
  · refine deliveredInside one fun f known => ?_
    obtain ⟨g,old,rfl⟩ := Option.map_eq_some_iff.mp known
    exact ⟨inside g old,rfl⟩

theorem followingConnect {p q : Producer.State} {n : Node} {message client} (following : Following p n)
    (unknown : n.client.file = none) (arrives : Producer.step p (.arrive message) = some q)
    (one : Client.step (n.heard p) (.request (some [])) = some client) :
    Following q ⟨client,p.conns.length⟩ := by
  have idle : n.client.content = [] ∧ n.client.copiers = [] := by
    simpa [Client.Copy.Prefixed,Node.heard,unknown] using following.1
  refine ⟨?_,?_⟩
  · rw [connectHeard unknown idle.2 arrives one]
    exact Client.Copy.stepPrefixed (a := .request (some [])) following.1 ⟨trivial,trivial⟩ one
  · refine deliveredInside one fun f known => ?_
    simp [Node.heard,unknown] at known

theorem stepAligned {s a t} (inv : Aligned s) (safe : Safe s a) (ok : step s a = some t) : Aligned t := by
  obtain ⟨front,following⟩ := inv
  have moved {k n} {n' : Node} (new : Following s.producer n') :
      s.nodes[k]? = some n → ∀ m ∈ s.nodes.set k n', Following s.producer m := by
    intro here m mem
    rcases List.mem_or_eq_of_mem_set mem with old | rfl
    · exact following m old
    · exact new
  cases stepped ok with
  | produce own one =>
    exact ⟨producedFront one safe front,fun n mem => followingGrows (sentGrows one) (following n mem)⟩
  | refused here unknown => exact ⟨front,following⟩
  | connect here unknown arrives one =>
    refine ⟨producedFront arrives trivial front,fun m mem => ?_⟩
    rcases List.mem_or_eq_of_mem_set mem with old | rfl
    · exact followingGrows (sentGrows arrives) (following m old)
    · exact followingConnect (following _ (List.mem_of_getElem? here)) unknown arrives one
  | @reuse k n f reached client here known one =>
    have request : Local n (.request (some (sentOn s.producer n.conn))) := trivial
    exact ⟨front,moved (followingStep (following n (List.mem_of_getElem? here)) request (by simp) one) here⟩
  | @node k n a client here carried one =>
    refine ⟨front,moved (followingStep (following n (List.mem_of_getElem? here)) (safe n here) ?_ one) here⟩
    intro chosen same
    subst same
    exact absurd carried id

theorem alignedPrefix {s n} (inv : Aligned s) (mem : n ∈ s.nodes) : n.client.content <+: s.producer.content := by
  obtain ⟨prefixed,inside⟩ := inv.following n mem
  cases known : n.client.file with
  | none =>
    have idle : n.client.content = [] ∧ n.client.copiers = [] := by
      simpa [Client.Copy.Prefixed,Node.heard,known] using prefixed
    simp [idle.1]
  | some f =>
    have level := (prefixedHeard known).mp prefixed
    refine level.behind.trans ((List.take_prefix _ _).trans ?_)
    show sentOn s.producer n.conn <+: s.producer.content
    cases conn : s.producer.conns[n.conn]? with
    | none => simp [sentOn,conn]
    | some c =>
      rw [sentOnSome conn]
      exact (inv.front c (List.mem_of_getElem? conn)).sent

theorem bootAligned (key : Producer.Name) (content : Bytes) (count : Nat) :
    Aligned (boot (Producer.boot key content) count) := by
  refine ⟨by simp [boot,Producer.boot],fun n mem => ?_⟩
  rw [List.eq_of_mem_replicate mem]
  exact ⟨⟨rfl,rfl⟩,by simp [Client.start]⟩

theorem consumersPrefix {key content count} {steps : List Step} {s : State} {k : Nat} {n : Node}
    (safe : Meets step Safe (boot (Producer.boot key content) count) steps)
    (ok : run step (boot (Producer.boot key content) count) steps = some s)
    (here : s.nodes[k]? = some n) : n.client.content <+: s.producer.content := by
  have inv : Aligned s := Lib.Run.invariant Safe Aligned stepAligned (bootAligned key content count) safe ok
  exact alignedPrefix inv (List.mem_of_getElem? here)

def followed : List Step :=
  [.produce (.openHandle 7 true),.produce (.write 7 0 [65,66]),.request 0 (some [47,97]),
   .produce (.serve 0 (.chunk 2)),.node 0 (.deliver 1),.node 0 (.copy 0 (.read 1)),.node 0 (.copy 0 .append),
   .request 1 (some [97]),.produce (.write 7 2 [67]),.produce (.serve 1 (.sendError 3 2)),
   .node 1 (.deliver 2),.node 1 (.copy 0 (.read 2)),.node 1 (.copy 0 .append),.node 1 (.copy 0 .readError)]

theorem twoFollow : ∃ s ∈ run step (boot (Producer.boot [47,97] []) 2) followed,
    ∃ n ∈ s.nodes[1]?, n.client.content = [65,66] ∧ n.client.content <+: s.producer.content := by
  have reached : ∃ s ∈ run step (boot (Producer.boot [47,97] []) 2) followed,
      ∃ n ∈ s.nodes[1]?, n.client.content = [65,66] := by decide
  obtain ⟨s,ok,n,here,content⟩ := reached
  exact ⟨s,ok,n,here,content,consumersPrefix (by decide) ok here⟩

end Prefix

end F3.Transfer
