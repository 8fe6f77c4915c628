import F3.Lib.GoPanic
import F3.ClientServers

/-! The handler of a request with every access to an element as Go makes it, in a pod: the
address of the chosen server is split at its colon, and the pods of its node are asked for.
Only the number of fields of the message is looked at before. -/
namespace F3.Client.Index
open Lib (Bytes)
open Lib.Lines (readLine)
open Lib.GoText
open Lib.GoPanic
open Request (getUniqueServers uniqueMember uniqueSome fieldsSome)
open Servers (Config Tables Measures Outcome fastest)

/- The calls of the Kubernetes client: whether the configuration and the client set are there,
and the IPs of the pods of a node, none where the list call fails. -/
structure Api where
  inClusterConfig : Bool
  newForConfig : Bool
  pods : Bytes → Option (List Bytes)

def getServerIP (api : Api) (server : Bytes) : Go Bytes := do
  let nodePort := server.splitOn 58
  let node ← index nodePort 0
  let port ← index nodePort 1
  -- The configuration is written to before its error is looked at.
  if api.inClusterConfig = false then .panics .nilPointer
  else if api.newForConfig = false then .panics .called
  else match api.pods node with
    | none => .panics .called
    | some items => do
        let ip ← index items 0
        pure (ip ++ 58 :: port)

def drawServer (serverList : List Bytes) (serverPool : Finset Bytes) : List Nat → Go Bytes
  | [] => .hangs
  | d::draws => do
      let i ← intn serverList.length d
      let server ← index serverList i
      if server ∈ serverPool then drawServer serverList serverPool draws else pure server

inductive Reply where
  | left
  | malformed
  | refused
  | copy (source : Option Bytes)
  deriving DecidableEq, Repr

section Handler
variable {R : Type} [LT R] [DecidableLT R]

def getServer (c : Config R) (routeTable : Bytes → Option (Measures R)) (serverList : List Bytes)
    (serverPool : Finset Bytes) (draws : List Nat) : Go Bytes :=
  match fastest c routeTable serverPool 0 c.maxFloat64 [] serverList with
  | (_,true) => drawServer serverList serverPool draws
  | (server,false) => pure server

def openConnection (api : Api) (net : Bytes → Outcome) (opens : Bool) (server : Bytes) :
    Go (Except Servers.OpenError Unit) := do
  let serverIP ← getServerIP api server
  pure (Servers.openConnection net opens serverIP)

def fuseConnectionHandler (c : Config R) (t : Tables R) (api : Api) (net : Bytes → Outcome) (opens : Bool)
    (draws : List Nat) (chunks : List Bytes) : Go Reply :=
  match readLine 10 [] chunks with
  | none => pure .left
  | some (line,_,_) => do
      let message ← sliceInit (line ++ [10])
      let arr := message.splitOn 44
      if arr.length < 3 then pure .malformed
      else do
        let fname := trimSpace (← index arr 0)
        let servers := getUniqueServers (← sliceFrom arr 2)
        let server ← getServer c t.routeTable servers ∅ draws
        if c.join fname ∈ t.files then pure (.copy none)
        else match ← openConnection api net opens server with
          | .error _ => pure .refused
          | .ok () => pure (.copy (some server))

end Handler

def Api.list (api : Api) (node : Bytes) : Option (List Bytes) :=
  if api.inClusterConfig = true ∧ api.newForConfig = true then api.pods node else none

def Api.Answers (api : Api) : Prop := ∀ node, ∃ items, api.list node = some items

def Addressed (api : Api) (server : Bytes) : Prop :=
  58 ∈ server ∧ api.list (server.takeWhile (· ≠ 58)) ≠ some []
instance (api server) : Decidable (Addressed api server) := by unfold Addressed; infer_instance

structure Safe (api : Api) {α : Type} (result : Go α) : Prop where
  inRange : ∀ p, result = .panics p → p.outOfRange = false
  done : api.Answers → ∃ a, result = .returns a

theorem withoutColon (api : Api) {server : Bytes} (none : 58 ∉ server) :
    getServerIP api server = .panics (.indexOutOfRange 1 1) := by
  have size : (server.splitOn 58).length = 1 := by rw [splitLength,List.count_eq_zero.mpr none]
  obtain ⟨node,pieces⟩ := List.length_eq_one_iff.mp size
  rw [getServerIP,pieces]
  rfl

theorem withColon (api : Api) {server : Bytes} (colon : 58 ∈ server) : ∃ port, getServerIP api server =
    match api.list (server.takeWhile (· ≠ 58)) with
    | none => .panics (if api.inClusterConfig = false then .nilPointer else .called)
    | some [] => .panics (.indexOutOfRange 0 0)
    | some (ip::_) => .returns (ip ++ 58 :: port) := by
  have size := splitLength 58 server
  have head := splitHead 58 server
  have positive := List.count_pos_iff.mpr colon
  match pieces : server.splitOn 58 with
  | [] => simp [pieces] at size
  | [_] =>
    simp only [pieces,List.length_singleton] at size
    omega
  | node::port::rest =>
    rw [pieces,List.head?_cons,Option.some.injEq] at head
    refine ⟨port,?_⟩
    have ports : index (node::port::rest) 1 = .returns port := rfl
    simp only [getServerIP,pieces,indexHead,bindReturns,ports,← head,Api.list]
    cases api.inClusterConfig <;> cases api.newForConfig <;> try rfl
    simp only [Bool.true_eq_false,if_false,and_self,if_true]
    cases api.pods node with
    | none => rfl
    | some items => cases items <;> rfl

theorem safeThen {api : Api} {α β : Type} {x : Go α} {f : α → Go β} (ends : ∀ a, ∃ b, f a = .returns b) :
    Safe api (x >>= f) ↔ Safe api x := by
  cases x with
  | hangs => exact ⟨fun safe => ⟨by simp,fun answers => nomatch safe.done answers⟩,
      fun safe => ⟨by simp [bind,Go.bind],fun answers => nomatch safe.done answers⟩⟩
  | panics p => exact ⟨fun safe => ⟨fun q isQ => safe.inRange q (by cases isQ; rfl),fun answers => nomatch safe.done answers⟩,
      fun safe => ⟨fun q isQ => safe.inRange q (by cases isQ; rfl),fun answers => nomatch safe.done answers⟩⟩
  | returns a =>
    obtain ⟨b,same⟩ := ends a
    rw [bindReturns,same]
    exact iff_of_true ⟨by simp,fun _ => ⟨b,rfl⟩⟩ ⟨by simp,fun _ => ⟨a,rfl⟩⟩

theorem serverIPSafe (api : Api) (server : Bytes) : Safe api (getServerIP api server) ↔ Addressed api server := by
  by_cases colon : 58 ∈ server
  · obtain ⟨port,same⟩ := withColon api colon
    rw [same,Addressed,and_iff_right colon]
    cases listed : api.list (server.takeWhile (· ≠ 58)) with
    | none =>
      refine iff_of_true ⟨fun p isP => ?_,fun answers => ?_⟩ (by simp)
      · cases isP
        split <;> rfl
      · obtain ⟨items,there⟩ := answers (server.takeWhile (· ≠ 58))
        cases listed.symm.trans there
    | some items =>
      cases items with
      | nil => exact iff_of_false (fun safe => by simpa [Panic.outOfRange] using safe.inRange _ rfl) (by simp)
      | cons ip others => exact iff_of_true ⟨by simp,fun _ => ⟨_,rfl⟩⟩ (by simp)
  · rw [withoutColon api colon]
    exact iff_of_false (fun safe => by simpa [Panic.outOfRange] using safe.inRange _ rfl) fun addressed =>
      colon addressed.1

def ofDraw : Option Bytes → Go Bytes
  | none => .hangs
  | some server => .returns server

theorem drawAgrees {servers : List Bytes} (named : servers ≠ []) (serverPool : Finset Bytes) (draws : List Nat) :
    drawServer servers serverPool draws = ofDraw (Servers.drawServer servers serverPool draws) := by
  induction draws with
  | nil => rfl
  | cons d rest ih =>
    have inside := Nat.mod_lt d (List.length_pos_iff.mpr named)
    have here := List.getElem?_eq_getElem inside
    simp only [drawServer,intnSome (show servers.length ≠ 0 by simpa using named),bindReturns,index,here,
      Servers.drawServer,List.getD_eq_getElem?_getD,Option.getD_some]
    split
    · exact ih
    · rfl

section Handler
variable {R : Type} [LT R] [DecidableLT R]

theorem getServerAgrees (c : Config R) (routeTable : Bytes → Option (Measures R)) {servers : List Bytes}
    (named : servers ≠ []) (serverPool : Finset Bytes) (draws : List Nat) :
    getServer c routeTable servers serverPool draws =
      ofDraw (Servers.getServer c routeTable servers serverPool draws) := by
  rcases found : fastest c routeTable serverPool 0 c.maxFloat64 [] servers with ⟨server,random⟩
  simp only [getServer,Servers.getServer,found]
  cases random with
  | true => exact drawAgrees named serverPool draws
  | false => rfl

theorem handled (c : Config R) (t : Tables R) (api : Api) (net : Bytes → Outcome) (opens : Bool)
    {draws : List Nat} {chunks : List Bytes} {line rest others}
    (received : readLine 10 [] chunks = some (line,rest,others)) (enough : ¬ (line.splitOn 44).length < 3)
    {server : Bytes} (picked : Servers.getServer c t.routeTable
      (getUniqueServers ((line.splitOn 44).drop 2)) ∅ draws = some server) :
    Safe api (fuseConnectionHandler c t api net opens draws chunks) ↔
      c.join (trimSpace ((line.splitOn 44).headD [])) ∈ t.files ∨ Addressed api server := by
  have rest : 2 ≤ (line.splitOn 44).length := by omega
  obtain ⟨first,others,pieces⟩ := List.exists_cons_of_ne_nil (List.splitOn_ne_nil 44 line)
  have named : getUniqueServers ((line.splitOn 44).drop 2) ≠ [] := uniqueSome (fieldsSome enough)
  have server_ := (getServerAgrees c t.routeTable named ∅ draws).trans (congrArg ofDraw picked)
  have start : index (line.splitOn 44) 0 = .returns ((line.splitOn 44).headD []) := by rw [pieces]; rfl
  simp only [fuseConnectionHandler,received,sliceInitLast,bindReturns,if_neg enough,start,
    sliceFromEnough rest,server_,ofDraw]
  by_cases known : c.join (trimSpace ((line.splitOn 44).headD [])) ∈ t.files
  · simp only [known,true_or,iff_true]
    exact ⟨by simp,fun _ => ⟨_,rfl⟩⟩
  · rw [if_neg known,or_iff_right known,← serverIPSafe,openConnection]
    refine (safeThen fun result => ?_).trans (safeThen fun ip => ⟨_,rfl⟩)
    cases result <;> exact ⟨_,rfl⟩

end Handler

theorem inRangeIff {R : Type} [LT R] [DecidableLT R] (c : Config R) (files : Finset Bytes) (api : Api)
    (net : Bytes → Outcome) (opens : Bool) (chunks : List Bytes) :
    (∀ (routeTable : Bytes → Option (Measures R)) (draws : List Nat), draws ≠ [] →
      Safe api (fuseConnectionHandler c ⟨files,routeTable⟩ api net opens draws chunks)) ↔
    ∀ line rest others, readLine 10 [] chunks = some (line,rest,others) →
      c.join (trimSpace ((line.splitOn 44).headD [])) ∈ files ∨
        ∀ field ∈ (line.splitOn 44).drop 2, Addressed api (trimSpace field) := by
  constructor
  · intro safe line rest others received
    by_cases few : (line.splitOn 44).length < 3
    · refine .inr fun field mem => ?_
      have none := List.length_pos_of_mem mem
      rw [List.length_drop] at none
      omega
    refine or_iff_not_imp_left.mpr fun unknown field mem => ?_
    obtain ⟨i,picked⟩ := Servers.getServerEach c (uniqueMember.mpr ⟨field,mem,rfl⟩)
    have one := safe (fun _ => none) [i] (by simp)
    rw [handled c ⟨files,fun _ => none⟩ api net opens received few picked] at one
    exact one.resolve_left unknown
  · intro each routeTable draws drawn
    cases received : readLine 10 [] chunks with
    | none =>
      rw [fuseConnectionHandler,received]
      exact ⟨by simp,fun _ => ⟨_,rfl⟩⟩
    | some read =>
      obtain ⟨line,rest,others⟩ := read
      by_cases few : (line.splitOn 44).length < 3
      · simp only [fuseConnectionHandler,received,sliceInitLast,bindReturns,if_pos few]
        exact ⟨by simp,fun _ => ⟨_,rfl⟩⟩
      obtain ⟨server,mem,picked⟩ := Servers.getServerMember c routeTable (uniqueSome (fieldsSome few)) drawn
      obtain ⟨field,there,rfl⟩ := uniqueMember.mp mem
      rw [handled c ⟨files,routeTable⟩ api net opens received few picked]
      exact (each line rest others received).imp_right fun all => all field there

def cluster : Api := ⟨true,true,fun node => some (if node = [110] then [[49]] else [])⟩

theorem addressedSafe : ∀ (routeTable : Bytes → Option (Measures Nat)) (draws : List Nat), draws ≠ [] →
    Safe cluster (fuseConnectionHandler Servers.config ⟨∅,routeTable⟩ cluster (fun _ => .present) true draws
      [[102,44,48,44,110,58,57,10]]) := by
  refine (inRangeIff Servers.config ∅ cluster (fun _ => .present) true [[102,44,48,44,110,58,57,10]]).mpr ?_
  intro line rest others received
  cases Option.some.inj (received.symm.trans (show _ = some ([102,44,48,44,110,58,57],[],[]) by decide))
  exact .inr (by decide)

theorem emptyAddressPanics : ∃ sent, Download.request [102] 0 [] = some sent ∧
    fuseConnectionHandler Servers.config ⟨∅,fun _ => none⟩ cluster (fun _ => .present) true [0] [sent] =
      .panics (.indexOutOfRange 1 1) ∧
    fuseConnectionHandler Servers.config ⟨∅,fun _ => none⟩ cluster (fun _ => .present) true [0]
      [[102,44,48,44,109,58,57,10]] = .panics (.indexOutOfRange 0 0) := by
  refine ⟨_,rfl,?_⟩
  decide +kernel

end F3.Client.Index
