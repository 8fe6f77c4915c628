import F3.Lib.Bytes
import F3.Lib.Run
import Mathlib.Data.Finset.Basic

/-! The producer node, for one ID file: the handles the driver has open on it, its
done notifications on the server's Unix socket, the server's writeComplete map and
every handleConnection goroutine that serves the file. One step is one atomic
action of one party: a request the driver answers, one read of the file with the
send of what was read, or one critical section of writeCompleteLock. -/
namespace F3.Producer
open Lib (Bytes)

abbrev Name := Bytes

-- "/"+message, the alternate form that handleConnection tries.
def slash (message : Name) : Name := 47 :: message

/- `key` is the value of user.f3.filepath: what sfs_release sends and
fuseConnectionHandler enters. A connection asks for the file by a message whose
lookup can hit that key, as it is or with one '/' in front. -/
def Asks (key message : Name) : Prop := message = key ∨ slash message = key
instance (key message) : Decidable (Asks key message) := by unfold Asks; infer_instance

def Found (writeComplete : Finset Name) (message : Name) : Prop :=
  message ∈ writeComplete ∨ slash message ∈ writeComplete
instance (writeComplete message) : Decidable (Found writeComplete message) := by
  unfold Found; infer_instance

inductive Phase where
  | copying | checking | sleeping | draining | closing | deleting | finished
  deriving DecidableEq, Repr

structure Conn where
  message : Name
  pos : Nat
  sent : Bytes
  broken : Bool
  phase : Phase
  deriving DecidableEq, Repr

inductive ConnStep where
  | chunk (n : Nat)
  | eof
  | sendError (n k : Nat)
  | check
  | wake
  | close
  | delete
  deriving DecidableEq, Repr

def copied : Phase → Option Phase
  | .copying => some .checking
  | .draining => some .closing
  | _ => none

/- handleConnection after the positive ack. The file is read at `pos` and never
seeked. A read returns any positive number of the bytes that are there, and ends
the copy when there are none. `sendError n k` ends it too: `n` bytes were read and
`k` of them went out, and the socket stays broken. The closing delete takes both
forms of the name. -/
def handleConnection (content : Bytes) (writeComplete : Finset Name) (c : Conn) :
    ConnStep → Option (Conn × Finset Name)
  | .chunk n =>
      if (c.phase = .copying ∨ c.phase = .draining) ∧ c.broken = false ∧ 0 < n ∧
          c.pos + n ≤ content.length then
        some ({c with pos := c.pos + n, sent := c.sent ++ (content.drop c.pos).take n},writeComplete)
      else none
  | .eof =>
      if content.length ≤ c.pos then do
        let phase ← copied c.phase
        some ({c with phase := phase},writeComplete)
      else none
  | .sendError n k =>
      if k ≤ n ∧ c.pos + n ≤ content.length ∧ (c.broken = true → k = 0) then do
        let phase ← copied c.phase
        some ({c with pos := c.pos + n, sent := c.sent ++ (content.drop c.pos).take k,
                      broken := true, phase := phase},writeComplete)
      else none
  | .check =>
      if c.phase = .checking then
        some ({c with phase := if Found writeComplete c.message then .draining else .sleeping},
          writeComplete)
      else none
  | .wake => if c.phase = .sleeping then some ({c with phase := .copying},writeComplete) else none
  | .close => if c.phase = .closing then some ({c with phase := .deleting},writeComplete) else none
  | .delete =>
      if c.phase = .deleting then
        some ({c with phase := .finished},(writeComplete.erase c.message).erase (slash c.message))
      else none

inductive Served (content : Bytes) (writeComplete : Finset Name) :
    Conn → ConnStep → Conn → Finset Name → Prop where
  | chunk {c n} (phase : c.phase = .copying ∨ c.phase = .draining) (sound : c.broken = false)
      (positive : 0 < n) (inside : c.pos + n ≤ content.length) :
      Served content writeComplete c (.chunk n)
        {c with pos := c.pos + n, sent := c.sent ++ (content.drop c.pos).take n} writeComplete
  | eof {c phase} (ended : content.length ≤ c.pos) (next : copied c.phase = some phase) :
      Served content writeComplete c .eof {c with phase := phase} writeComplete
  | sendError {c n k phase} (part : k ≤ n) (inside : c.pos + n ≤ content.length)
      (silent : c.broken = true → k = 0) (next : copied c.phase = some phase) :
      Served content writeComplete c (.sendError n k)
        {c with pos := c.pos + n, sent := c.sent ++ (content.drop c.pos).take k,
                broken := true, phase := phase} writeComplete
  | found {c} (phase : c.phase = .checking) (flag : Found writeComplete c.message) :
      Served content writeComplete c .check {c with phase := .draining} writeComplete
  | missing {c} (phase : c.phase = .checking) (flag : ¬ Found writeComplete c.message) :
      Served content writeComplete c .check {c with phase := .sleeping} writeComplete
  | wake {c} (phase : c.phase = .sleeping) :
      Served content writeComplete c .wake {c with phase := .copying} writeComplete
  | close {c} (phase : c.phase = .closing) :
      Served content writeComplete c .close {c with phase := .deleting} writeComplete
  | delete {c} (phase : c.phase = .deleting) :
      Served content writeComplete c .delete {c with phase := .finished}
        ((writeComplete.erase c.message).erase (slash c.message))

theorem served {content writeComplete c a c' wc'}
    (ok : handleConnection content writeComplete c a = some (c',wc')) :
    Served content writeComplete c a c' wc' := by
  cases a with
  | chunk n =>
    simp only [handleConnection] at ok
    split at ok <;> try contradiction
    rename_i h
    cases Option.some.inj ok
    exact .chunk h.1 h.2.1 h.2.2.1 h.2.2.2
  | eof =>
    simp only [handleConnection] at ok
    split at ok <;> try contradiction
    rename_i ended
    obtain ⟨phase,next,last⟩ := Option.bind_eq_some_iff.mp ok
    cases Option.some.inj last
    exact .eof ended next
  | sendError n k =>
    simp only [handleConnection] at ok
    split at ok <;> try contradiction
    rename_i h
    obtain ⟨phase,next,last⟩ := Option.bind_eq_some_iff.mp ok
    cases Option.some.inj last
    exact .sendError h.1 h.2.1 h.2.2 next
  | check =>
    simp only [handleConnection] at ok
    split at ok <;> try contradiction
    rename_i phase
    by_cases flag : Found writeComplete c.message
    · rw [if_pos flag] at ok
      cases Option.some.inj ok
      exact .found phase flag
    · rw [if_neg flag] at ok
      cases Option.some.inj ok
      exact .missing phase flag
  | wake =>
    simp only [handleConnection] at ok
    split at ok <;> try contradiction
    cases Option.some.inj ok
    exact .wake (by assumption)
  | close =>
    simp only [handleConnection] at ok
    split at ok <;> try contradiction
    cases Option.some.inj ok
    exact .close (by assumption)
  | delete =>
    simp only [handleConnection] at ok
    split at ok <;> try contradiction
    cases Option.some.inj ok
    exact .delete (by assumption)

theorem servedMessage {content wc c a c' wc'} (h : Served content wc c a c' wc') :
    c'.message = c.message := by
  cases h <;> rfl

theorem servedSubset {content wc c a c' wc'} (h : Served content wc c a c' wc') : wc' ⊆ wc := by
  cases h with
  | delete phase => exact (Finset.erase_subset _ _).trans (Finset.erase_subset _ _)
  | _ => exact Finset.Subset.refl _

structure Handle where
  fh : Nat
  writable : Bool
  deriving DecidableEq, Repr

structure State where
  key : Name
  needsDownload : Bool
  content : Bytes
  handles : List Handle
  socket : List Name
  handler : Option Name
  writeComplete : Finset Name
  conns : List Conn
  deriving DecidableEq

inductive Step where
  | openHandle (fh : Nat) (writable : Bool)
  | write (fh off : Nat) (data : Bytes)
  | truncate (fh size : Nat)
  | release (fh : Nat)
  | recv
  | set
  | arrive (message : Name)
  | serve (i : Nat) (a : ConnStep)
  deriving DecidableEq, Repr

/- sfs_release of any handle, read or write, sends the done message unless the
inode was downloaded. A handle counts as open until its release is requested: the
kernel sends no write for it afterwards. -/
def sfsRelease (s : State) (fh : Nat) : Option State :=
  if s.handles.any (fun h => h.fh = fh) then
    some {s with handles := s.handles.filter (fun h => h.fh ≠ fh),
                 socket := if s.needsDownload then s.socket else s.socket ++ [s.key]}
  else none

/- fuseConnectionHandler reads a message and looks it up without the lock (`recv`);
only when it was absent does it take the lock and enter it (`set`). -/
def fuseConnectionHandler (s : State) : Option State :=
  match s.handler,s.socket with
  | none,message::rest =>
      some {s with socket := rest,
                   handler := if message ∈ s.writeComplete then none else some message}
  | _,_ => none

def step (s : State) : Step → Option State
  | .openHandle fh writable =>
      if s.handles.any (fun h => h.fh = fh) then none
      else some {s with handles := ⟨fh,writable⟩ :: s.handles}
  | .write fh off data =>
      if ⟨fh,true⟩ ∈ s.handles then some {s with content := s.content.pwrite off data} else none
  | .truncate fh size =>
      if ⟨fh,true⟩ ∈ s.handles then some {s with content := s.content.truncate size} else none
  | .release fh => sfsRelease s fh
  | .recv => fuseConnectionHandler s
  | .set => do
      let message ← s.handler
      some {s with handler := none, writeComplete := insert message s.writeComplete}
  | .arrive message =>
      if Asks s.key message then
        some {s with conns := s.conns ++ [⟨message,0,[],false,.copying⟩]}
      else none
  | .serve i a => do
      let c ← s.conns[i]?
      let (c',writeComplete) ← handleConnection s.content s.writeComplete c a
      some {s with conns := s.conns.set i c', writeComplete := writeComplete}

inductive Stepped : State → Step → State → Prop where
  | openHandle {s fh writable} (fresh : ∀ h ∈ s.handles, h.fh ≠ fh) :
      Stepped s (.openHandle fh writable) {s with handles := ⟨fh,writable⟩ :: s.handles}
  | write {s fh off data} (handle : ⟨fh,true⟩ ∈ s.handles) :
      Stepped s (.write fh off data) {s with content := s.content.pwrite off data}
  | truncate {s fh size} (handle : ⟨fh,true⟩ ∈ s.handles) :
      Stepped s (.truncate fh size) {s with content := s.content.truncate size}
  | release {s fh} (known : ∃ h ∈ s.handles, h.fh = fh) :
      Stepped s (.release fh) {s with
        handles := s.handles.filter (fun h => h.fh ≠ fh),
        socket := if s.needsDownload then s.socket else s.socket ++ [s.key]}
  | known {s message rest} (idle : s.handler = none) (next : s.socket = message :: rest)
      (present : message ∈ s.writeComplete) :
      Stepped s .recv {s with socket := rest, handler := none}
  | fresh {s message rest} (idle : s.handler = none) (next : s.socket = message :: rest)
      (absent : message ∉ s.writeComplete) :
      Stepped s .recv {s with socket := rest, handler := some message}
  | set {s message} (armed : s.handler = some message) :
      Stepped s .set {s with handler := none, writeComplete := insert message s.writeComplete}
  | arrive {s message} (asks : Asks s.key message) :
      Stepped s (.arrive message) {s with conns := s.conns ++ [⟨message,0,[],false,.copying⟩]}
  | serve {s i a c c' wc'} (conn : s.conns[i]? = some c)
      (one : Served s.content s.writeComplete c a c' wc') :
      Stepped s (.serve i a) {s with conns := s.conns.set i c', writeComplete := wc'}

theorem stepped {s a t} (ok : step s a = some t) : Stepped s a t := by
  cases a with
  | openHandle fh writable =>
    simp only [step] at ok
    split at ok <;> try contradiction
    rename_i unused
    cases Option.some.inj ok
    exact .openHandle (by simpa using unused)
  | write fh off data =>
    simp only [step] at ok
    split at ok <;> try contradiction
    cases Option.some.inj ok
    exact .write (by assumption)
  | truncate fh size =>
    simp only [step] at ok
    split at ok <;> try contradiction
    cases Option.some.inj ok
    exact .truncate (by assumption)
  | release fh =>
    simp only [step,sfsRelease] at ok
    split at ok <;> try contradiction
    rename_i known
    cases Option.some.inj ok
    exact .release (by simpa using known)
  | recv =>
    simp only [step,fuseConnectionHandler] at ok
    split at ok <;> try contradiction
    rename_i message rest idle next
    cases Option.some.inj ok
    by_cases present : message ∈ s.writeComplete
    · simpa only [if_pos present] using Stepped.known idle next present
    · simpa only [if_neg present] using Stepped.fresh idle next present
  | set =>
    simp only [step] at ok
    obtain ⟨message,armed,last⟩ := Option.bind_eq_some_iff.mp ok
    cases Option.some.inj last
    exact .set armed
  | arrive message =>
    simp only [step] at ok
    split at ok <;> try contradiction
    cases Option.some.inj ok
    exact .arrive (by assumption)
  | serve i a =>
    simp only [step] at ok
    obtain ⟨c,conn,ok⟩ := Option.bind_eq_some_iff.mp ok
    obtain ⟨⟨c',wc'⟩,one,last⟩ := Option.bind_eq_some_iff.mp ok
    cases Option.some.inj last
    exact .serve conn (served one)

def boot (key : Name) (content : Bytes) : State :=
  ⟨key,false,content,[],[],none,∅,[]⟩

end F3.Producer
