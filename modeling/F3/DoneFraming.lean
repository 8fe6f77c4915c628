import F3.Lib.Lines
import F3.Producer

/-! Framing of the done messages. send_fname_done writes one line for each release;
the server's fuseConnectionHandler makes a new bufio.Reader for every line it reads,
so the bytes the old reader had buffered after its newline are never looked at. Where it
reads every line, its rounds are the message steps of the producer node. -/
namespace F3.DoneFraming
open Lib (Bytes)
open Lib.Lines (readLine EndsLine)
open Lib.Run (run)

abbrev Name := Bytes

def pathMax : Nat := 4096

/- snprintf of "%s\n" into PATH_MAX bytes. It returns the untruncated length, and
write is called with that length: past the buffer there is no defined message. -/
def sendFnameDone (fname : Bytes) : Option Bytes :=
  let line := fname.takeWhile (· ≠ 0) ++ [10]
  if line.length < pathMax then some line else none

structure DoneName where
  name : Name
  noNul : 0 ∉ name
  noNewline : 10 ∉ name
  fits : name.length + 1 < pathMax

theorem sendDoneName (n : DoneName) : sendFnameDone n.name = some (n.name ++ [10]) := by
  have each : ∀ b ∈ n.name, decide (b ≠ 0) = true := by
    intro b mem
    simpa using fun same : b = 0 => n.noNul (same ▸ mem)
  have whole : n.name.takeWhile (· ≠ 0) = n.name := by
    rw [← List.append_nil n.name,List.takeWhile_append_of_pos each]
    simp
  have short := n.fits
  unfold sendFnameDone
  simp only [whole]
  rw [if_pos (by simpa using short)]

def wire (names : List DoneName) : Bytes :=
  names.flatMap (fun n => (sendFnameDone n.name).getD [])

theorem wireCons (n : DoneName) (rest : List DoneName) :
    wire (n::rest) = n.name ++ 10 :: wire rest := by
  simp [wire,sendDoneName]

/- The loop of fuseConnectionHandler, on the chunks its reads return. ReadBytes fails
when the source ends before a newline, and the loop with it. -/
def loop : Nat → List Bytes → List Name
  | 0,_ => []
  | fuel+1,chunks => match readLine 10 [] chunks with
    | none => []
    | some (message,_,others) => message :: loop fuel others

def messages (chunks : List Bytes) : List Name := loop chunks.length chunks

def enter (writeComplete : Finset Name) (message : Name) : Finset Name :=
  if message ∈ writeComplete then writeComplete else insert message writeComplete

def fuseConnectionHandler (writeComplete : Finset Name) (chunks : List Bytes) : Finset Name :=
  (messages chunks).foldl enter writeComplete

theorem fuelStable (fuel other : Nat) (chunks : List Bytes) (a : chunks.length ≤ fuel)
    (b : chunks.length ≤ other) : loop fuel chunks = loop other chunks := by
  induction fuel generalizing chunks other with
  | zero =>
    cases List.eq_nil_of_length_eq_zero (Nat.le_zero.mp a)
    cases other <;> rfl
  | succ fuel ih =>
    cases other with
    | zero =>
      cases List.eq_nil_of_length_eq_zero (Nat.le_zero.mp b)
      rfl
    | succ other =>
      simp only [loop]
      cases h : readLine 10 [] chunks with
      | none => rfl
      | some p =>
        have shorter := Lib.Lines.readLineShorter List.not_mem_nil h
        dsimp only
        rw [ih other p.2.2 (Nat.le_of_lt_succ (Nat.lt_of_lt_of_le shorter a))
          (Nat.le_of_lt_succ (Nat.lt_of_lt_of_le shorter b))]

theorem messagesLine {chunks : List Bytes} {message rest others}
    (h : readLine 10 [] chunks = some (message,rest,others)) :
    messages chunks = message :: messages others := by
  have shorter := Lib.Lines.readLineShorter List.not_mem_nil h
  cases chunks with
  | nil => simp at shorter
  | cons c cs =>
    simp only [messages,List.length_cons,loop,h]
    rw [fuelStable cs.length others.length others (by simpa using Nat.le_of_lt_succ shorter)
      (Nat.le_refl _)]

theorem messagesEnd {chunks : List Bytes} (h : readLine 10 [] chunks = none) :
    messages chunks = [] := by
  cases chunks with
  | nil => rfl
  | cons c cs => simp [messages,loop,h]

inductive Rounds : List Bytes → List Name → Prop where
  | left {chunks} (ended : readLine 10 [] chunks = none) : Rounds chunks []
  | line {chunks message rest others names}
      (read : readLine 10 [] chunks = some (message,rest,others))
      (next : Rounds others names) : Rounds chunks (message::names)

theorem rounds (chunks : List Bytes) : Rounds chunks (messages chunks) := by
  induction size : chunks.length using Nat.strong_induction_on generalizing chunks with
  | _ n ih =>
    cases h : readLine 10 [] chunks with
    | none => exact messagesEnd h ▸ .left h
    | some p =>
      have shorter := Lib.Lines.readLineShorter List.not_mem_nil h
      rw [messagesLine h]
      exact .line h (ih p.2.2.length (size ▸ shorter) p.2.2 rfl)

theorem enterMem (message : Name) (rest : List Name) (writeComplete : Finset Name) :
    message ∈ rest.foldl enter writeComplete ↔ message ∈ rest ∨ message ∈ writeComplete := by
  induction rest generalizing writeComplete with
  | nil => simp
  | cons m rest ih =>
    rw [List.foldl_cons,ih]
    have one : message ∈ enter writeComplete m ↔ message = m ∨ message ∈ writeComplete := by
      unfold enter
      split
      · rename_i present
        exact ⟨Or.inr,fun h => h.elim (fun same => same ▸ present) id⟩
      · exact Finset.mem_insert
    rw [one,List.mem_cons]
    tauto

def wireSize (names : List Name) : Nat := (names.map (fun n => n.length + 1)).sum

theorem wireLength (names : List DoneName) :
    (wire names).length = wireSize (names.map DoneName.name) := by
  induction names with
  | nil => rfl
  | cons n rest ih =>
    rw [wireCons,List.length_append,List.length_cons,ih]
    simp only [wireSize,List.map_cons,List.sum_cons]
    omega

theorem roundsSize {chunks : List Bytes} {names} (h : Rounds chunks names) :
    wireSize names ≤ chunks.flatten.length := by
  induction h with
  | left ended => exact Nat.zero_le _
  | @line chunks message rest others names read next ih =>
    have parts := congrArg List.length (Lib.Lines.readLinePartition read).1
    simp only [List.nil_append,List.length_append,List.length_cons] at parts
    simp only [wireSize,List.map_cons,List.sum_cons] at ih ⊢
    omega

theorem everyLineKept {names : List DoneName} {chunks : List Bytes}
    (stream : chunks.flatten = wire names) (ends : ∀ c ∈ chunks, EndsLine 10 c) :
    messages chunks = names.map DoneName.name := by
  induction names generalizing chunks with
  | nil =>
    refine messagesEnd ?_
    cases h : readLine 10 [] chunks with
    | none => rfl
    | some p =>
      have parts := (Lib.Lines.readLinePartition h).1
      simp [stream,wire] at parts
  | cons n rest ih =>
    obtain ⟨others,read,tail,sub⟩ := Lib.Lines.readLineEnds List.not_mem_nil n.noNewline ends
      (stream.trans (wireCons n rest))
    rw [messagesLine read,ih tail (fun c mem => ends c (sub c mem)),List.map_cons]

/- Conversely, when every line comes out, no reader threw a byte away. -/
theorem keptLineEnds {names : List DoneName} {chunks : List Bytes} {lines : List Name}
    (stream : chunks.flatten = wire names) (h : Rounds chunks lines)
    (same : lines = names.map DoneName.name) : ∀ c ∈ chunks, EndsLine 10 c := by
  induction h generalizing names with
  | @left chunks ended =>
    intro c mem
    refine Lib.Lines.endsLineFree fun inside => ?_
    have free := Lib.Lines.readLineNone ended
    exact free (by simpa using ⟨c,mem,inside⟩)
  | @line chunks message rest others lines read next ih =>
    cases names with
    | nil => simp at same
    | cons n names =>
      obtain ⟨rfl,tails⟩ := List.cons.inj same
      have parts := (Lib.Lines.readLinePartition read).1
      rw [List.nil_append,stream,wireCons] at parts
      have remaining : wire names = rest ++ others.flatten := by
        simpa using List.append_cancel_left parts
      have size := roundsSize next
      rw [tails,← wireLength,remaining,List.length_append] at size
      have empty : rest = [] := List.eq_nil_of_length_eq_zero (by omega)
      subst rest
      obtain ⟨used,split,ends⟩ := Lib.Lines.readLineUsed List.not_mem_nil read
      have later := ih (by simpa using remaining.symm) tails
      intro c mem
      rw [split] at mem
      exact (List.mem_append.mp mem).elim (ends c) (later c)

theorem framingExact {names : List DoneName} {chunks : List Bytes} (writeComplete : Finset Name)
    (stream : chunks.flatten = wire names) :
    (messages chunks = names.map DoneName.name ∧
      ∀ n ∈ names, n.name ∈ fuseConnectionHandler writeComplete chunks) ↔
    ∀ c ∈ chunks, EndsLine 10 c := by
  constructor
  · rintro ⟨all,_⟩
    exact keptLineEnds stream (rounds chunks) all
  · intro ends
    have all := everyLineKept stream ends
    refine ⟨all,fun n mem => ?_⟩
    rw [fuseConnectionHandler,enterMem,all]
    exact Or.inl (List.mem_map.mpr ⟨n,mem,rfl⟩)

def roundSteps (writeComplete : Finset Name) : List Name → List Producer.Step
  | [] => []
  | message::rest => (if message ∈ writeComplete then [.recv] else [.recv,.set]) ++
      roundSteps (enter writeComplete message) rest

theorem roundsRun {s : Producer.State} {names : List Name} (idle : s.handler = none) (waiting : s.socket = names) :
    run Producer.step s (roundSteps s.writeComplete names) =
      some {s with socket := [], handler := none, writeComplete := names.foldl enter s.writeComplete} := by
  induction names generalizing s with
  | nil =>
    cases s
    cases idle
    cases waiting
    rfl
  | cons message rest ih =>
    by_cases present : message ∈ s.writeComplete
    · have one : Producer.step s .recv = some {s with socket := rest, handler := none} := by
        simp only [Producer.step,Producer.fuseConnectionHandler,idle,waiting,if_pos present]
      have more := @ih {s with socket := rest, handler := none} rfl rfl
      simp only [roundSteps,enter,if_pos present,List.singleton_append,run,one,List.foldl_cons]
      exact more
    · have one : Producer.step s .recv = some {s with socket := rest, handler := some message} := by
        simp only [Producer.step,Producer.fuseConnectionHandler,idle,waiting,if_neg present]
      have more := @ih {s with socket := rest, handler := none, writeComplete := insert message s.writeComplete}
        rfl rfl
      simp only [roundSteps,enter,if_neg present,List.cons_append,List.nil_append,run,one,List.foldl_cons]
      exact more

-- The node model takes whole messages from its socket; this is what its steps do when no line is lost.
theorem handlerRuns {s : Producer.State} {names : List DoneName} {chunks : List Bytes} (idle : s.handler = none)
    (waiting : s.socket = names.map DoneName.name) (stream : chunks.flatten = wire names)
    (ends : ∀ c ∈ chunks, EndsLine 10 c) :
    run Producer.step s (roundSteps s.writeComplete s.socket) =
      some {s with socket := [], handler := none, writeComplete := fuseConnectionHandler s.writeComplete chunks} := by
  rw [roundsRun idle rfl,waiting,fuseConnectionHandler,everyLineKept stream ends]

def nameA : DoneName := ⟨[47,97],by decide,by decide,by decide⟩
def nameB : DoneName := ⟨[47,98],by decide,by decide,by decide⟩

theorem splitMessageKept : messages [[47],[97,10],[47,98,10]] = [[47,97],[47,98]] ∧
    ∀ n ∈ [nameA,nameB], n.name ∈ fuseConnectionHandler ∅ [[47],[97,10],[47,98,10]] :=
  (@framingExact [nameA,nameB] [[47],[97,10],[47,98,10]] ∅ (by decide)).mpr (by decide)

theorem coalescedMessageLost : [[47,97,10,47,98,10]].flatten = wire [nameA,nameB] ∧
    nameB.name ∉ fuseConnectionHandler ∅ [[47,97,10,47,98,10]] := by
  decide

end F3.DoneFraming
