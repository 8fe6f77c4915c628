import F3.Lib.ReadWrite
import F3.ClientServers
import Mathlib.Tactic.FieldSimp
import Mathlib.Tactic.Ring
import Mathlib.Algebra.Order.Ring.Rat
import Mathlib.Data.Rat.Cast.Order

/-! The route table under concurrent putServer calls. Each call reads its server's entry
under one acquisition of the lock and writes the new one under another; between the two the
entry may be read and written by other calls. Speeds are exact. -/
namespace F3.Client.Route
open Lib (Bytes)
open Lib.Run (run Meets)
open Lib.ReadWrite
open Servers (Measures)

abbrev Entry := Option (Measures ℚ)

inductive Place where
  | spawned
  | read (measure : Entry)
  | returned
  deriving DecidableEq, Repr

structure Call where
  server : Bytes
  downloadSpeed : ℚ
  place : Place
  deriving DecidableEq, Repr

structure State where
  routeTable : Bytes → Entry
  calls : List Call

inductive Step where
  | spawn (server : Bytes) (downloadSpeed : ℚ)
  | get (i : Nat)
  | set (i : Nat)
  deriving DecidableEq, Repr

def newMeasure (downloadSpeed : ℚ) : Entry → Measures ℚ
  | none => ⟨downloadSpeed,1⟩
  | some measure =>
      ⟨(measure.downloadSpeed * measure.requests + downloadSpeed) / (measure.requests + 1),measure.requests + 1⟩

def getRouteTable (s : State) (key : Bytes) : Entry := s.routeTable key

def setRouteTable (s : State) (key : Bytes) (value : Measures ℚ) : State :=
  {s with routeTable := fun k => if k = key then some value else s.routeTable k}

def step (s : State) : Step → Option State
  | .spawn server downloadSpeed => some {s with calls := s.calls ++ [⟨server,downloadSpeed,.spawned⟩]}
  | .get i => do
      let c ← s.calls[i]?
      match c.place with
      | .spawned => some {s with calls := s.calls.set i {c with place := .read (getRouteTable s c.server)}}
      | _ => none
  | .set i => do
      let c ← s.calls[i]?
      match c.place with
      | .read measure => some {setRouteTable s c.server (newMeasure c.downloadSpeed measure) with
          calls := s.calls.set i {c with place := .returned}}
      | _ => none

def seenBy (server : Bytes) (c : Call) : Option Entry := match c.place with
  | .read measure => if c.server = server then some measure else none
  | _ => none

def speedOf (server : Bytes) (c : Call) : Option ℚ := match c.place with
  | .returned => if c.server = server then some c.downloadSpeed else none
  | _ => none

def view (server : Bytes) (s : State) : View Entry ℚ :=
  ⟨s.routeTable server,s.calls.filterMap (seenBy server),s.calls.filterMap (speedOf server)⟩

def Alone (server : Bytes) (s : State) : Step → Prop
  | .get i => ∀ c ∈ s.calls[i]?, c.server = server → s.calls.filterMap (seenBy server) = []
  | _ => True
instance (server s a) : Decidable (Alone server s a) := by
  unfold Alone
  rcases a <;> infer_instance

theorem setSplit {α : Type} {l : List α} {i : Nat} {x : α} (here : l[i]? = some x) :
    ∃ pre post, l = pre ++ x::post ∧ ∀ y, l.set i y = pre ++ y::post := by
  obtain ⟨inside,rfl⟩ := List.getElem?_eq_some_iff.mp here
  refine ⟨l.take i,l.drop (i + 1),?_,fun y => List.set_eq_take_append_cons_drop.trans (if_pos inside)⟩
  rw [List.getElem_cons_drop,List.take_append_drop]

theorem moves (server : Bytes) {s t : State} {a : Step} (ok : step s a = some t) :
    Move (fun speed seen => some (newMeasure speed seen)) (view server s) (Alone server s a) (view server t) := by
  cases a with
  | spawn name downloadSpeed =>
    cases Option.some.inj ok
    exact .idle trivial (by simp [view,seenBy,speedOf])
  | get i =>
    obtain ⟨c,here,ok⟩ := Option.bind_eq_some_iff.mp ok
    split at ok <;> try contradiction
    rename_i place
    cases Option.some.inj ok
    obtain ⟨pre,post,calls,set⟩ := setSplit here
    by_cases same : c.server = server
    · refine @Move.read _ _ _ _ _ _ (pre.filterMap (seenBy server)) (post.filterMap (seenBy server)) ?_ ?_ ?_
      · simp [Alone,here,same,view]
      · simp [view,calls,seenBy,place]
      · simp only [view,set]
        simp [calls,List.filterMap_cons,seenBy,speedOf,place,same,getRouteTable]
    · refine .idle (by simp [Alone,here,same]) ?_
      simp only [view,set]
      simp [calls,List.filterMap_cons,seenBy,speedOf,place,same]
  | set i =>
    obtain ⟨c,here,ok⟩ := Option.bind_eq_some_iff.mp ok
    split at ok <;> try contradiction
    rename_i measure place
    cases Option.some.inj ok
    obtain ⟨pre,post,calls,set⟩ := setSplit here
    by_cases same : c.server = server
    · refine @Move.write _ _ _ _ _ _ (pre.filterMap (seenBy server)) (post.filterMap (seenBy server))
        (pre.filterMap (speedOf server)) (post.filterMap (speedOf server)) measure c.downloadSpeed trivial ?_ ?_ ?_
      · simp [view,calls,seenBy,place,same]
      · simp [view,calls,speedOf,place]
      · simp only [view,set]
        simp [List.filterMap_cons,seenBy,speedOf,same,setRouteTable]
    · refine .idle trivial ?_
      simp only [view,set]
      simp [calls,List.filterMap_cons,seenBy,speedOf,place,same,Ne.symm same,setRouteTable]

-- The entry that n finished calls should leave: how many they are, and their mean speed.
def expected (speeds : List ℚ) : Entry :=
  if speeds = [] then none else some ⟨speeds.sum / speeds.length,speeds.length⟩

theorem expectedAdds (left : List ℚ) (speed : ℚ) (right : List ℚ) :
    some (newMeasure speed (expected (left ++ right))) = expected (left ++ speed::right) := by
  by_cases none : left ++ right = []
  · obtain ⟨rfl,rfl⟩ := List.append_eq_nil_iff.mp none
    simp [expected,newMeasure]
  · have positive : ((left.length : ℚ) + right.length) ≠ 0 := by
      have some := List.length_pos_iff.mpr none
      rw [List.length_append] at some
      exact_mod_cast Nat.pos_iff_ne_zero.mp some
    rw [expected,if_neg none,expected,if_neg (by simp)]
    simp only [newMeasure,List.sum_append,List.sum_cons,List.length_append,List.length_cons,Option.some.injEq,
      Measures.mk.injEq]
    refine ⟨?_,by push_cast; ring⟩
    push_cast
    rw [div_mul_cancel₀ _ positive]
    congr 1 <;> ring

def requests : Entry → Int
  | none => 0
  | some measure => measure.requests

theorem requestsCount (speed : ℚ) (seen : Entry) : requests (some (newMeasure speed seen)) = requests seen + 1 := by
  cases seen <;> rfl

def reported (server : Bytes) (s : State) : List ℚ :=
  (s.calls.filter (·.server = server)).map Call.downloadSpeed

theorem returnedView {server : Bytes} {s : State} (all : ∀ c ∈ s.calls, c.server = server → c.place = .returned) :
    view server s = ⟨s.routeTable server,[],reported server s⟩ := by
  have none : s.calls.filterMap (seenBy server) = [] := by
    refine List.filterMap_eq_nil_iff.mpr fun c mem => ?_
    by_cases same : c.server = server
    · simp [seenBy,all c mem same]
    · unfold seenBy
      split <;> simp [same]
  have speeds : s.calls.filterMap (speedOf server) = reported server s := by
    rw [reported,← List.filterMap_eq_map,List.filterMap_filter]
    refine List.filterMap_congr fun c mem => ?_
    by_cases same : c.server = server
    · simp [speedOf,all c mem same,same]
    · unfold speedOf
      split <;> simp [same]
  rw [view,none,speeds]

theorem meanIffAlone {routeTable : Bytes → Entry} {server : Bytes} {steps : List Step} {t : State}
    (absent : routeTable server = none) (ok : run step ⟨routeTable,[]⟩ steps = some t)
    (all : ∀ c ∈ t.calls, c.server = server → c.place = .returned) (called : reported server t ≠ []) :
    (∃ measure, t.routeTable server = some measure ∧ measure.requests = (reported server t).length ∧
      measure.downloadSpeed = (reported server t).sum / (reported server t).length) ↔
      Meets step (Alone server) ⟨routeTable,[]⟩ steps := by
  have opened : view server ⟨routeTable,[]⟩ = ⟨none,[],[]⟩ := by simp [view,absent]
  have ended := returnedView all
  constructor
  · rintro ⟨measure,entry,count,_⟩
    have tight : Tight requests (view server t) := by
      rw [ended,entry]
      exact .inl ⟨rfl,count⟩
    have bounded : Bounded requests (view server ⟨routeTable,[]⟩) := by
      rw [opened]
      exact ⟨Int.le_refl 0,by simp⟩
    exact ((tightRun requestsCount (moves server) bounded ok).mp tight).2
  · intro meets
    have start : Exact expected (view server ⟨routeTable,[]⟩) := by
      rw [opened]
      exact .inl ⟨rfl,rfl⟩
    have exact_ := exactRun expectedAdds (moves server) start meets ok
    rw [ended] at exact_
    rcases exact_ with ⟨_,value⟩ | open_
    · refine ⟨_,value.trans (if_neg called),rfl,rfl⟩
    · simp at open_

def served : Bytes := [115]

def oneByOne : List Step := [.spawn served 1,.spawn served 3,.get 0,.set 0,.get 1,.set 1]

theorem oneByOneMean : ∃ t measure, run step ⟨fun _ => none,[]⟩ oneByOne = some t ∧
    t.routeTable served = some measure ∧ measure.requests = 2 ∧ measure.downloadSpeed = 2 := by
  have ok : run step ⟨fun _ => none,[]⟩ oneByOne = some _ := rfl
  obtain ⟨measure,entry,count,mean⟩ := (@meanIffAlone _ served _ _ rfl ok (by decide +kernel)
    (by decide +kernel)).mpr (by decide +kernel)
  refine ⟨_,measure,ok,entry,count,mean.trans ?_⟩
  decide +kernel

theorem oneLost : ∃ t, run step ⟨fun _ => none,[]⟩ [.spawn served 1,.spawn served 3,.get 0,.get 1,.set 0,.set 1] = some t ∧
    (∀ c ∈ t.calls, c.place = .returned) ∧ t.calls.length = 2 ∧ t.routeTable served = some ⟨3,1⟩ := by
  refine ⟨_,rfl,?_⟩
  decide +kernel

end F3.Client.Route
