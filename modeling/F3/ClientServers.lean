import F3.ClientRequest
import Mathlib.Data.Finset.Basic

/-! The server a request is sent to. getServer picks one of the listed servers, the
handler dials that one and refuses the request when it fails; the pool that would keep
a second attempt from the same server is filled and never read again. -/
namespace F3.Client.Servers
open Lib (Bytes)

-- What a listed server does with the connection; one that breaks it before the ack is unreachable.
inductive Outcome where
  | unreachable | absent | present
  deriving DecidableEq, Repr

structure Measures (R : Type) where
  downloadSpeed : R
  requests : Int
  deriving DecidableEq, Repr

section Choice
variable {R : Type} [LT R] [DecidableLT R]

/- `join` is path.Join behind the temp dir, `maxFloat64` the speed no server reaches. -/
structure Config (R : Type) where
  join : Bytes → Bytes
  thresholdSamples : Int
  maxFloat64 : R

structure Tables (R : Type) where
  files : Finset Bytes
  routeTable : Bytes → Option (Measures R)

/- The loop over the list: the server with the least measure so far, or true when a
server is met that has too few samples. -/
def fastest (c : Config R) (routeTable : Bytes → Option (Measures R)) (serverPool : Finset Bytes) :
    Nat → R → Bytes → List Bytes → Bytes × Bool
  | _,_,server,[] => (server,false)
  | i,minDwldSpd,server,s::rest =>
      if s ∈ serverPool then fastest c routeTable serverPool (i + 1) minDwldSpd server rest
      else match routeTable s with
        | none => (server,true)
        | some measure =>
            if measure.requests < c.thresholdSamples then (server,true)
            else if i = 0 ∨ measure.downloadSpeed < minDwldSpd then
              fastest c routeTable serverPool (i + 1) measure.downloadSpeed s rest
            else fastest c routeTable serverPool (i + 1) minDwldSpd server rest

/- One draw after another until a server is hit that is not in the pool. A draw is any
number, rand.Intn the remainder. -/
def drawServer (serverList : List Bytes) (serverPool : Finset Bytes) : List Nat → Option Bytes
  | [] => none
  | d::draws =>
      let server := serverList.getD (d % serverList.length) []
      if server ∈ serverPool then drawServer serverList serverPool draws else some server

def getServer (c : Config R) (routeTable : Bytes → Option (Measures R)) (serverList : List Bytes)
    (serverPool : Finset Bytes) (draws : List Nat) : Option Bytes :=
  match fastest c routeTable serverPool 0 c.maxFloat64 [] serverList with
  | (_,true) => drawServer serverList serverPool draws
  | (server,false) => some server

inductive OpenError where
  | dial | notOnServer | localFile
  deriving DecidableEq, Repr

def openConnection (net : Bytes → Outcome) (opens : Bool) (server : Bytes) : Except OpenError Unit :=
  match net server with
  | .unreachable => .error .dial
  | .absent => .error .notOnServer
  | .present => if opens then .ok () else .error .localFile

/- Without a server the copy reads the connection that an earlier request has left in
the files map. -/
inductive Answer where
  | nack
  | copy (source : Option Bytes)
  deriving DecidableEq, Repr

structure Handled where
  answer : Answer
  tried : List Bytes
  files : Finset Bytes

def fuseConnectionHandler (c : Config R) (t : Tables R) (net : Bytes → Outcome) (opens : Bool)
    (draws : List Nat) (fname : Bytes) (servers : List Bytes) : Option Handled := do
  let path := c.join fname
  let server ← getServer c t.routeTable servers ∅ draws
  if path ∈ t.files then some ⟨.copy none,[],t.files⟩
  else match openConnection net opens server with
    | .error _ => some ⟨.nack,[server],t.files⟩
    | .ok () => some ⟨.copy (some server),[server],insert path t.files⟩

structure Served (net : Bytes → Outcome) (servers : List Bytes) (h : Handled) : Prop where
  refused : h.answer = .nack → ∀ s ∈ servers, net s ≠ .present
  transferred : (∃ s ∈ servers, net s = .present) →
    ∃ s ∈ servers, net s = .present ∧ h.answer = .copy (some s)
  once : h.tried.Nodup

def Uniform (net : Bytes → Outcome) (servers : List Bytes) : Prop :=
  (∀ s ∈ servers, net s = .present) ∨ (∀ s ∈ servers, net s ≠ .present)
instance (net servers) : Decidable (Uniform net servers) := by unfold Uniform; infer_instance

theorem parsedServers {message name : Bytes} {servers}
    (parsed : Request.parse message = some (name,servers)) : servers ≠ [] := by
  unfold Request.parse at parsed
  simp only at parsed
  split at parsed <;> try contradiction
  rename_i enough
  rw [← (Prod.mk.inj (Option.some.inj parsed)).2]
  exact Request.uniqueSome (Request.fieldsSome enough)

theorem fastestMember (c : Config R) (routeTable) {i : Nat} {speed : R} {server : Bytes}
    {servers : List Bytes} (started : i = 0 → servers ≠ []) :
    ((fastest c routeTable ∅ i speed server servers).2 = false →
      (fastest c routeTable ∅ i speed server servers).1 ∈ servers ∨
      (0 < i ∧ (fastest c routeTable ∅ i speed server servers).1 = server)) := by
  induction servers generalizing i speed server with
  | nil =>
    intro _
    exact .inr ⟨Nat.pos_of_ne_zero fun zero => started zero rfl,rfl⟩
  | cons s rest ih =>
    have later (speed' : R) (server' : Bytes) := @ih (i + 1) speed' server' (by simp)
    simp only [fastest,Finset.notMem_empty,if_false]
    split
    · simp
    · split
      · simp
      · split
        · intro fixed
          rcases later _ _ fixed with mem | ⟨_,same⟩
          · exact .inl (List.mem_cons_of_mem s mem)
          · exact .inl (List.mem_cons.mpr (.inl same))
        · rename_i other
          intro fixed
          rcases later _ _ fixed with mem | ⟨_,same⟩
          · exact .inl (List.mem_cons_of_mem s mem)
          · exact .inr ⟨Nat.pos_of_ne_zero fun zero => other (.inl zero),same⟩

theorem getServerMember (c : Config R) (routeTable) {servers : List Bytes} {draws : List Nat}
    (named : servers ≠ []) (drawn : draws ≠ []) :
    ∃ server ∈ servers, getServer c routeTable servers ∅ draws = some server := by
  unfold getServer
  have member := @fastestMember R _ _ c routeTable 0 c.maxFloat64 [] servers
    (fun _ => named)
  split
  · obtain ⟨d,rest,rfl⟩ := List.exists_cons_of_ne_nil drawn
    have inside := Nat.mod_lt d (List.length_pos_iff.mpr named)
    refine ⟨servers.getD (d % servers.length) [],?_,by simp [drawServer]⟩
    rw [List.getD_eq_getElem?_getD,List.getElem?_eq_getElem inside,Option.getD_some]
    exact List.getElem_mem inside
  · rename_i server same
    rw [same] at member
    exact ⟨server,(member rfl).resolve_right (by simp),rfl⟩

theorem getServerEach (c : Config R) {servers : List Bytes} {s : Bytes} (mem : s ∈ servers) :
    ∃ i, getServer c (fun _ => none) servers ∅ [i] = some s := by
  obtain ⟨i,inside,at_⟩ := List.mem_iff_getElem.mp mem
  obtain ⟨first,rest,same⟩ := List.exists_cons_of_ne_nil (List.ne_nil_of_mem mem)
  have drawn : fastest c (fun _ => none) ∅ 0 c.maxFloat64 [] servers = ([],true) := by
    simp [same,fastest]
  refine ⟨i,?_⟩
  simp only [getServer,drawn,drawServer,Finset.notMem_empty,if_false,Nat.mod_eq_of_lt inside]
  rw [List.getD_eq_getElem?_getD,List.getElem?_eq_getElem inside,Option.getD_some,at_]

theorem openOutcome (net : Bytes → Outcome) (server : Bytes) :
    openConnection net true server = .ok () ↔ net server = .present := by
  unfold openConnection
  split <;> simp_all

theorem handledFresh (c : Config R) (t : Tables R) (net : Bytes → Outcome) {fname : Bytes}
    {servers : List Bytes} {draws : List Nat} {server : Bytes} (fresh : c.join fname ∉ t.files)
    (picked : getServer c t.routeTable servers ∅ draws = some server) :
    ∃ h, fuseConnectionHandler c t net true draws fname servers = some h ∧ h.tried = [server] ∧
      h.answer = if net server = .present then .copy (some server) else .nack := by
  simp only [fuseConnectionHandler,picked,Option.bind_eq_bind,Option.bind_some,if_neg fresh]
  by_cases has : net server = .present
  · rw [(openOutcome net server).mpr has]
    exact ⟨_,rfl,rfl,by simp [has]⟩
  · cases opened : openConnection net true server with
    | ok u => exact absurd ((openOutcome net server).mp opened) has
    | error e => exact ⟨_,rfl,rfl,by simp [has]⟩

end Choice

theorem servedUniform {R : Type} [LT R] [DecidableLT R] (c : Config R) (files : Finset Bytes)
    (net : Bytes → Outcome) {message fname : Bytes} {servers : List Bytes}
    (parsed : Request.parse message = some (fname,servers)) (fresh : c.join fname ∉ files) :
    (∀ (routeTable : Bytes → Option (Measures R)) (draws : List Nat), draws ≠ [] →
      ∃ h, fuseConnectionHandler c ⟨files,routeTable⟩ net true draws fname servers = some h ∧
        Served net servers h) ↔ Uniform net servers := by
  have named := parsedServers parsed
  constructor
  · intro served
    by_cases one : ∃ s ∈ servers, net s = .present
    · refine .inl fun s mem => ?_
      obtain ⟨i,picked⟩ := getServerEach c mem
      obtain ⟨h,ran,right⟩ := served (fun _ => none) [i] (by simp)
      obtain ⟨h',ran',-,answer⟩ := handledFresh c ⟨files,fun _ => none⟩ net fresh picked
      cases Option.some.inj (ran.symm.trans ran')
      by_contra lacks
      rw [if_neg lacks] at answer
      obtain ⟨found,mem',has⟩ := one
      exact right.refused answer found mem' has
    · exact .inr fun s mem has => one ⟨s,mem,has⟩
  · intro uniform routeTable draws drawn
    obtain ⟨server,mem,picked⟩ := getServerMember c routeTable named drawn
    obtain ⟨h,ran,tried,answer⟩ := handledFresh c ⟨files,routeTable⟩ net fresh picked
    refine ⟨h,ran,?_,?_,by simp [tried]⟩
    · intro nack
      rcases uniform with all | none
      · rw [answer,if_pos (all server mem)] at nack
        contradiction
      · exact none
    · rintro ⟨s,mem',has⟩
      rcases uniform with all | none
      · exact ⟨server,mem,all server mem,by rw [answer,if_pos (all server mem)]⟩
      · exact absurd has (none s mem')

def config : Config Nat := ⟨fun fname => 47 :: fname,10,1000⟩

-- "f,0,s,t": the servers s and t are asked for f.
def message : Bytes := [102,44,48,44,115,44,116]

theorem bothHave : ∃ h, fuseConnectionHandler config ⟨∅,fun _ => none⟩ (fun _ => .present) true [1]
    [102] [[115],[116]] = some h ∧ Served (fun _ => .present) [[115],[116]] h :=
  (@servedUniform Nat _ _ config ∅ (fun _ => .present) message [102] [[115],[116]] (by decide)
    (by decide)).mpr
    (.inl fun _ _ => rfl) (fun _ => none) [1] (by decide)

theorem oneOfTwoRefused :
    Request.parse message = some ([102],[[115],[116]]) ∧
    (fuseConnectionHandler config ⟨∅,fun _ => none⟩
      (fun s => if s = [116] then .present else .absent) true [0] [102] [[115],[116]]).map
      (fun h => (h.answer,h.tried)) = some (.nack,[[115]]) := by
  decide

end F3.Client.Servers
