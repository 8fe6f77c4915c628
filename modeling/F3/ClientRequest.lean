import F3.Download
import F3.DoneFraming
import F3.Producer
import F3.Lib.GoFormat

/-! The download request on its way from the driver to the transfer client, and the name
in it on its way to the transfer server. The client splits the line at its commas and
trims the pieces; the name is then the format of an Fprintf. -/
namespace F3.Client.Request
open Lib (Bytes)
open Lib.Lines (cut readLine)
open Lib.GoText

def uniqueLoop : List Bytes → List Bytes → List Bytes
  | _,[] => []
  | set,s::rest =>
      let s := trimSpace s
      if s ∈ set then uniqueLoop set rest else s :: uniqueLoop (s::set) rest

def getUniqueServers (serverList : List Bytes) : List Bytes := uniqueLoop [] serverList

/- What fuseConnectionHandler takes from a message; a malformed one is refused. The end
byte is not looked at. -/
def parse (message : Bytes) : Option (Bytes × List Bytes) :=
  let arr := message.splitOn 44
  if arr.length < 3 then none else some (trimSpace (arr.headD []),getUniqueServers (arr.drop 2))

def fuseConnectionHandler (chunks : List Bytes) : Option (Bytes × List Bytes) := do
  let (message,_,_) ← readLine 10 [] chunks
  parse message

def distinctServers (servers : Bytes) : List Bytes := ((servers.splitOn 44).map trimSpace).eraseDups

theorem uniqueLoopExact (set serverList : List Bytes) :
    uniqueLoop set serverList = ((serverList.map trimSpace).filter (· ∉ set)).eraseDups := by
  induction serverList generalizing set with
  | nil => rfl
  | cons s rest ih =>
    simp only [uniqueLoop,List.map_cons]
    by_cases known : trimSpace s ∈ set
    · rw [if_pos known,ih,List.filter_cons_of_neg (by simpa using known)]
    · rw [if_neg known,ih,List.filter_cons_of_pos (by simpa using known),List.eraseDups_cons,
        List.filter_filter]
      congr 2
      refine List.filter_congr fun x _ => ?_
      simp only [List.mem_cons,not_or,Bool.decide_and,beq_eq_decide,decide_not]

theorem uniqueMember {fields : List Bytes} {server : Bytes} :
    server ∈ getUniqueServers fields ↔ ∃ field ∈ fields, trimSpace field = server := by
  rw [getUniqueServers,uniqueLoopExact]
  simp

theorem uniqueSome {fields : List Bytes} (some : fields ≠ []) : getUniqueServers fields ≠ [] := by
  obtain ⟨field,rest,rfl⟩ := List.exists_cons_of_ne_nil some
  exact List.ne_nil_of_mem (uniqueMember.mpr ⟨field,List.mem_cons_self,rfl⟩)

theorem fieldsSome {arr : List Bytes} (enough : ¬ arr.length < 3) : arr.drop 2 ≠ [] := by
  rw [Ne,List.drop_eq_nil_iff]
  omega

theorem uniqueServers (servers : Bytes) :
    getUniqueServers (servers.splitOn 44) = distinctServers servers := by
  simp [getUniqueServers,uniqueLoopExact,distinctServers]

def Clean (path : Bytes) : Prop := 44 ∉ path ∧ 10 ∉ path ∧ trimSpace path = path
instance (path) : Decidable (Clean path) := by unfold Clean; infer_instance

theorem readLineCut {chunks : List Bytes} {line rest : Bytes} (free : 10 ∉ line)
    (stream : chunks.flatten = line ++ 10 :: rest) :
    ∃ r others, readLine 10 [] chunks = some (line,r,others) := by
  cases read : readLine 10 [] chunks with
  | none =>
    have none := Lib.Lines.readLineNone read
    simp [stream] at none
  | some p =>
    obtain ⟨message,r,others⟩ := p
    obtain ⟨parts,plain⟩ := Lib.Lines.readLinePartition read
    have one := Lib.Lines.cutLine (r ++ others.flatten) plain
    rw [← parts,List.nil_append,stream,Lib.Lines.cutLine rest free] at one
    cases Option.some.inj one
    exact ⟨r,others,rfl⟩

theorem parseLine {path servers : Bytes} (endByte : Nat) (free : 44 ∉ path) :
    parse (path ++ 44 :: (Driver.digits endByte ++ 44 :: servers)) =
      some (trimSpace path,distinctServers servers) := by
  have number : 44 ∉ Driver.digits endByte :=
    fun mem => absurd (Download.digitsPlain mem).1 (by decide)
  have pieces : (servers.splitOn 44).length ≠ 0 := by simp [List.splitOn_ne_nil]
  simp only [parse,splitFirst _ free,splitFirst _ number,List.length_cons,List.headD_cons,
    List.drop_succ_cons,List.drop_zero,uniqueServers]
  rw [if_neg (by omega)]

theorem parsedName {message name : Bytes} {servers} (parsed : parse message = some (name,servers)) :
    44 ∉ name ∧ name ⊆ message := by
  unfold parse at parsed
  simp only at parsed
  split at parsed <;> try contradiction
  have name_ := (Prod.mk.inj (Option.some.inj parsed)).1
  have head : (message.splitOn 44).headD [] = message.takeWhile (· ≠ 44) := by
    rw [List.headD_eq_head?_getD,splitHead]
    rfl
  rw [head] at name_
  have inside : name ⊆ message.takeWhile (· ≠ 44) := name_ ▸ trimSubset _
  exact ⟨fun mem => by simpa using List.all_eq_true.mp List.all_takeWhile 44 (inside mem),
    fun b mem => (List.takeWhile_sublist _).subset (inside mem)⟩

theorem requestRead {path servers sent : Bytes} {endByte : Nat} {chunks : List Bytes}
    (noNul : 0 ∉ path) (noNulServers : 0 ∉ servers) (oneLine : 10 ∉ servers)
    (fits : Download.request path endByte servers = some sent) (arrived : chunks.flatten = sent) :
    fuseConnectionHandler chunks = some (path,distinctServers servers) ↔ Clean path := by
  have line : chunks.flatten = path ++ 44 :: (Driver.digits endByte ++ 44 :: (servers ++ [10])) := by
    unfold Download.request at fits
    split at fits <;> try contradiction
    rw [arrived,← Option.some.inj fits,Download.requestLine,Download.cStringPlain noNul,
      Download.cStringPlain noNulServers]
  have number : 10 ∉ Driver.digits endByte :=
    fun mem => absurd (Download.digitsPlain mem).1 (by decide)
  have whole : 10 ∉ path → fuseConnectionHandler chunks =
      parse (path ++ 44 :: (Driver.digits endByte ++ 44 :: servers)) := by
    intro free
    have message : 10 ∉ path ++ 44 :: (Driver.digits endByte ++ 44 :: servers) := by
      simp [free,number,oneLine]
    have stream : chunks.flatten = (path ++ 44 :: (Driver.digits endByte ++ 44 :: servers)) ++ [10] := by
      simp [line]
    obtain ⟨r,others,read⟩ := readLineCut message stream
    simp [fuseConnectionHandler,read]
  constructor
  · intro read
    obtain ⟨⟨message,r,others⟩,first,parsed⟩ := Option.bind_eq_some_iff.mp read
    obtain ⟨free,inside⟩ := parsedName parsed
    have plain : 10 ∉ path := fun mem => (Lib.Lines.readLinePartition first).2 (inside mem)
    rw [whole plain,parseLine endByte free] at read
    exact ⟨free,plain,(Prod.mk.inj (Option.some.inj read)).1⟩
  · rintro ⟨free,plain,trimmed⟩
    rw [whole plain,parseLine endByte free,trimmed]

def plainName : Bytes := [47,97]
def commaName : Bytes := [47,97,44,98]
def twoServers : Bytes := [115,44,32,116,44,115]

theorem plainRequestRead :
    fuseConnectionHandler [[47,97,44],[48,44,115,44,32,116,44,115,10]] =
      some (plainName,[[115],[116]]) :=
  (@requestRead plainName twoServers [47,97,44,48,44,115,44,32,116,44,115,10] 0
    [[47,97,44],[48,44,115,44,32,116,44,115,10]] (by decide) (by decide) (by decide)
    (by decide) rfl).mpr (by decide)

theorem commaSplitsPath : ∃ sent, Download.request commaName 0 twoServers = some sent ∧
    fuseConnectionHandler [sent] = some ([47,97],[[48],[115],[116]]) := by
  refine ⟨_,rfl,?_⟩
  decide

-- What openConnection writes on its connection: the name and a newline, as a format.
def openConnection (fname : Bytes) : Bytes := fprintf (fname ++ [10])

def handleConnection (chunks : List Bytes) : Option Bytes := (readLine 10 [] chunks).map (·.1)

theorem receivedPlain {fname : Bytes} {chunks : List Bytes} (plain : 37 ∉ fname)
    (free : 10 ∉ fname) (arrived : chunks.flatten = openConnection fname) :
    handleConnection chunks = some fname := by
  have sent : openConnection fname = fname ++ [10] :=
    formatPlain (by simp [plain]) (Nat.le_refl _)
  obtain ⟨r,others,read⟩ := readLineCut free (arrived.trans sent)
  simp [handleConnection,read]

theorem receivedExact {fname : Bytes} {chunks : List Bytes} (free : 10 ∉ fname)
    (arrived : chunks.flatten = openConnection fname) : handleConnection chunks = some fname ↔ 37 ∉ fname := by
  refine ⟨fun received => ?_,fun plain => receivedPlain plain free arrived⟩
  obtain ⟨⟨message,r,others⟩,read,isName⟩ := Option.map_eq_some_iff.mp received
  cases isName
  have parts := (Lib.Lines.readLinePartition read).1
  rw [List.nil_append,arrived] at parts
  exact (@formatSame _ _ message [] (by simp) free (by simp) parts).2

theorem doneEntered (done : DoneFraming.DoneName) (writeComplete : Finset Bytes)
    {chunks : List Bytes} (sent : DoneFraming.sendFnameDone done.name = some chunks.flatten) :
    done.name ∈ DoneFraming.fuseConnectionHandler writeComplete chunks := by
  rw [DoneFraming.sendDoneName] at sent
  obtain ⟨r,others,read⟩ := readLineCut done.noNewline (Option.some.inj sent).symm
  rw [DoneFraming.fuseConnectionHandler,DoneFraming.enterMem,DoneFraming.messagesLine read]
  exact Or.inl List.mem_cons_self

theorem nameReceived {request : List Bytes} {fname : Bytes} {servers : List Bytes}
    (extracted : fuseConnectionHandler request = some (fname,servers)) :
    ∀ chunks : List Bytes, chunks.flatten = openConnection fname →
      (handleConnection chunks = some fname ↔ 37 ∉ fname) ∧
      (37 ∉ fname → ∀ done : DoneFraming.DoneName, Producer.Asks done.name fname →
      ∀ (lines : List Bytes) (writeComplete : Finset Bytes),
        DoneFraming.sendFnameDone done.name = some lines.flatten →
        ∃ message ∈ handleConnection chunks,
          Producer.Found (DoneFraming.fuseConnectionHandler writeComplete lines) message) := by
  intro chunks arrived
  obtain ⟨⟨message,r,others⟩,first,parsed⟩ := Option.bind_eq_some_iff.mp extracted
  have free : 10 ∉ fname :=
    fun mem => (Lib.Lines.readLinePartition first).2 ((parsedName parsed).2 mem)
  have received := receivedExact free arrived
  refine ⟨received,fun plain done asks lines writeComplete sent => ⟨fname,received.mpr plain,?_⟩⟩
  have entered := doneEntered done writeComplete sent
  rcases asks with same | same
  · exact .inl (same ▸ entered)
  · exact .inr (same ▸ entered)

theorem plainNameReceived :
    fuseConnectionHandler [[97,44,48,44,115,10]] = some ([97],[[115]]) ∧
    handleConnection [[97],[10]] = some [97] :=
  ⟨by decide,(@nameReceived [[97,44,48,44,115,10]] [97] [[115]] (by decide)
    [[97],[10]] rfl).1.mpr (by decide)⟩

def percentName : DoneFraming.DoneName := ⟨[97,37,100],by decide,by decide,by decide⟩

theorem percentMissing :
    (Download.request percentName.name 0 [115]).bind (fun sent => fuseConnectionHandler [sent]) =
      some (percentName.name,[[115]]) ∧
    ∃ message ∈ handleConnection [openConnection percentName.name],
      message ≠ percentName.name ∧
      ∃ line ∈ DoneFraming.sendFnameDone percentName.name,
        ¬ Producer.Found (DoneFraming.fuseConnectionHandler ∅ [line]) message := by
  refine ⟨by decide,[97,37,33,100,40,77,73,83,83,73,78,71,41],by decide,by decide,
    [97,37,100,10],by decide,by decide⟩

end F3.Client.Request
