import F3.Lib.Bytes
import F3.Lib.Run

/-! The transfer client, for one local path: the entry of the files map, the local
file and the copy goroutine of every request. The map hands one File, with one
connection and one O_APPEND descriptor, to all of them, and is never evicted. -/
namespace F3.Client
open Lib (Bytes)

/- `whole` is the file the chosen server sends from byte 0, `delivered` how much of it
has been sent on the connection and `taken` how much the goroutines have read. -/
structure File where
  whole : Bytes
  delivered : Nat
  taken : Nat
  ended : Bool
  failed : Bool
  fdOpen : Bool
  deriving DecidableEq, Repr

def File.sent (f : File) : Bytes := f.whole.take f.delivered

/- io.CopyBuffer alternates reading and holding; it returns nil on EOF (`drained`) and
an error otherwise (`broken`), and the goroutine ends by closing the descriptor. -/
inductive Phase where
  | reading
  | holding (chunk : Bytes)
  | drained
  | broken
  | closing
  | finished
  deriving DecidableEq, Repr

/- `wanted` is what the server that getServer chose for this request holds under the
path, none when it cannot be reached or has no such file. -/
structure Copier where
  wanted : Option Bytes
  phase : Phase
  deriving DecidableEq, Repr

structure State where
  file : Option File
  content : Bytes
  copiers : List Copier
  deriving DecidableEq, Repr

inductive CopyStep where
  | read (n : Nat)
  | readEof
  | readError
  | append
  | appendError (k : Nat)
  | answer
  | giveUp
  | closeFd
  deriving DecidableEq, Repr

inductive Step where
  | request (chosen : Option Bytes)
  | deliver (n : Nat)
  | serverClose
  | copy (i : Nat) (a : CopyStep)
  | restart
  deriving DecidableEq, Repr

/- openConnection dials, reads the ack and opens the local file for appending; the
position it records is not sent to the server. -/
def openConnection (whole : Bytes) : File := ⟨whole,0,0,false,false,true⟩

/- fuseConnectionHandler up to the start of the goroutine. The server chosen for the
request matters only when the path has no entry yet. -/
def fuseConnectionHandler (s : State) (chosen : Option Bytes) : State :=
  match s.file,chosen with
  | none,none => s
  | none,some whole => {s with file := some (openConnection whole),
                               copiers := s.copiers ++ [⟨chosen,.reading⟩]}
  | some _,_ => {s with copiers := s.copiers ++ [⟨chosen,.reading⟩]}

/- The copy goroutine, one system call at a time, on the local file, the shared File
and its own state. A read of a connection that has failed once reports the end of
the stream from then on; a write to the closed descriptor fails and writes nothing. -/
def copyStep (content : Bytes) (f : File) (c : Copier) : CopyStep → Option (Bytes × File × Copier)
  | .read n =>
      if c.phase = .reading ∧ f.failed = false ∧ 0 < n ∧ f.taken + n ≤ f.delivered then
        some (content,{f with taken := f.taken + n},
          {c with phase := .holding ((f.sent.drop f.taken).take n)})
      else none
  | .readEof =>
      if c.phase = .reading ∧ ((f.ended = true ∧ f.taken = f.delivered) ∨ f.failed = true) then
        some (content,f,{c with phase := .drained})
      else none
  | .readError =>
      if c.phase = .reading then
        some (content,{f with failed := true},{c with phase := .broken})
      else none
  | .append => match c.phase with
      | .holding chunk =>
          if f.fdOpen then some (content ++ chunk,f,{c with phase := .reading})
          else some (content,f,{c with phase := .broken})
      | _ => none
  | .appendError k => match c.phase with
      | .holding chunk =>
          if f.fdOpen = true ∧ k < chunk.length then
            some (content ++ chunk.take k,f,{c with phase := .broken})
          else none
      | _ => none
  | .answer => if c.phase = .drained then some (content,f,{c with phase := .closing}) else none
  | .giveUp => if c.phase = .broken then some (content,f,{c with phase := .closing}) else none
  | .closeFd =>
      if c.phase = .closing then
        some (content,{f with fdOpen := false},{c with phase := .finished})
      else none

def step (s : State) : Step → Option State
  | .request chosen => some (fuseConnectionHandler s chosen)
  | .deliver n => do
      let f ← s.file
      if f.ended = false ∧ f.delivered + n ≤ f.whole.length then
        some {s with file := some {f with delivered := f.delivered + n}}
      else none
  | .serverClose => do
      let f ← s.file
      some {s with file := some {f with ended := true}}
  | .copy i a => do
      let f ← s.file
      let c ← s.copiers[i]?
      let (content,f',c') ← copyStep s.content f c a
      some ⟨some f',content,s.copiers.set i c'⟩
  | .restart => some ⟨none,s.content,[]⟩

def start (content : Bytes) : State := ⟨none,content,[]⟩

inductive Copied (content : Bytes) (f : File) :
    Copier → CopyStep → Bytes → File → Copier → Prop where
  | read {c n} (phase : c.phase = .reading) (sound : f.failed = false) (positive : 0 < n)
      (inside : f.taken + n ≤ f.delivered) :
      Copied content f c (.read n) content {f with taken := f.taken + n}
        {c with phase := .holding ((f.sent.drop f.taken).take n)}
  | readEof {c} (phase : c.phase = .reading)
      (eof : (f.ended = true ∧ f.taken = f.delivered) ∨ f.failed = true) :
      Copied content f c .readEof content f {c with phase := .drained}
  | readError {c} (phase : c.phase = .reading) :
      Copied content f c .readError content {f with failed := true} {c with phase := .broken}
  | append {c chunk} (phase : c.phase = .holding chunk) (fd : f.fdOpen = true) :
      Copied content f c .append (content ++ chunk) f {c with phase := .reading}
  | closed {c chunk} (phase : c.phase = .holding chunk) (fd : f.fdOpen = false) :
      Copied content f c .append content f {c with phase := .broken}
  | appendError {c chunk k} (phase : c.phase = .holding chunk) (fd : f.fdOpen = true)
      (short : k < chunk.length) :
      Copied content f c (.appendError k) (content ++ chunk.take k) f {c with phase := .broken}
  | answer {c} (phase : c.phase = .drained) :
      Copied content f c .answer content f {c with phase := .closing}
  | giveUp {c} (phase : c.phase = .broken) :
      Copied content f c .giveUp content f {c with phase := .closing}
  | closeFd {c} (phase : c.phase = .closing) :
      Copied content f c .closeFd content {f with fdOpen := false} {c with phase := .finished}

theorem copied {content f c a content' f' c'}
    (ok : copyStep content f c a = some (content',f',c')) :
    Copied content f c a content' f' c' := by
  cases a with
  | append =>
    simp only [copyStep] at ok
    split at ok <;> try contradiction
    rename_i chunk phase
    split at ok
    · cases Option.some.inj ok
      exact .append phase (by assumption)
    · cases Option.some.inj ok
      exact .closed phase (by simpa using ‹¬ f.fdOpen = true›)
  | appendError k =>
    simp only [copyStep] at ok
    split at ok <;> try contradiction
    rename_i chunk phase
    split at ok <;> try contradiction
    rename_i h
    cases Option.some.inj ok
    exact .appendError phase h.1 h.2
  | read n =>
    simp only [copyStep] at ok
    split at ok <;> try contradiction
    rename_i h
    cases Option.some.inj ok
    exact .read h.1 h.2.1 h.2.2.1 h.2.2.2
  | readEof =>
    simp only [copyStep] at ok
    split at ok <;> try contradiction
    rename_i h
    cases Option.some.inj ok
    exact .readEof h.1 h.2
  | readError =>
    simp only [copyStep] at ok
    split at ok <;> try contradiction
    cases Option.some.inj ok
    exact .readError (by assumption)
  | answer =>
    simp only [copyStep] at ok
    split at ok <;> try contradiction
    cases Option.some.inj ok
    exact .answer (by assumption)
  | giveUp =>
    simp only [copyStep] at ok
    split at ok <;> try contradiction
    cases Option.some.inj ok
    exact .giveUp (by assumption)
  | closeFd =>
    simp only [copyStep] at ok
    split at ok <;> try contradiction
    cases Option.some.inj ok
    exact .closeFd (by assumption)

inductive Stepped : State → Step → State → Prop where
  | refused {s} (unknown : s.file = none) : Stepped s (.request none) s
  | opened {s whole} (unknown : s.file = none) :
      Stepped s (.request (some whole))
        {s with file := some (openConnection whole),
                copiers := s.copiers ++ [⟨some whole,.reading⟩]}
  | reused {s f chosen} (known : s.file = some f) :
      Stepped s (.request chosen) {s with copiers := s.copiers ++ [⟨chosen,.reading⟩]}
  | deliver {s f n} (known : s.file = some f) (running : f.ended = false)
      (inside : f.delivered + n ≤ f.whole.length) :
      Stepped s (.deliver n) {s with file := some {f with delivered := f.delivered + n}}
  | serverClose {s f} (known : s.file = some f) :
      Stepped s .serverClose {s with file := some {f with ended := true}}
  | copy {s f i c a content' f' c'} (known : s.file = some f) (here : s.copiers[i]? = some c)
      (one : Copied s.content f c a content' f' c') :
      Stepped s (.copy i a) ⟨some f',content',s.copiers.set i c'⟩
  | restart {s} : Stepped s .restart ⟨none,s.content,[]⟩

theorem stepped {s a t} (ok : step s a = some t) : Stepped s a t := by
  cases a with
  | request chosen =>
    simp only [step,fuseConnectionHandler] at ok
    split at ok
    · cases Option.some.inj ok
      exact .refused (by assumption)
    · cases Option.some.inj ok
      exact .opened (by assumption)
    · cases Option.some.inj ok
      exact .reused (by assumption)
  | deliver n =>
    simp only [step] at ok
    obtain ⟨f,known,ok⟩ := Option.bind_eq_some_iff.mp ok
    split at ok <;> try contradiction
    rename_i h
    cases Option.some.inj ok
    exact .deliver known h.1 h.2
  | serverClose =>
    simp only [step] at ok
    obtain ⟨f,known,last⟩ := Option.bind_eq_some_iff.mp ok
    cases Option.some.inj last
    exact .serverClose known
  | copy i a =>
    simp only [step] at ok
    obtain ⟨f,known,ok⟩ := Option.bind_eq_some_iff.mp ok
    obtain ⟨c,here,ok⟩ := Option.bind_eq_some_iff.mp ok
    obtain ⟨⟨content',f',c'⟩,one,last⟩ := Option.bind_eq_some_iff.mp ok
    cases Option.some.inj last
    exact .copy known here (copied one)
  | restart =>
    cases Option.some.inj ok
    exact .restart

end F3.Client
