import F3.Transfer
import F3.DriverData
import F3.DriverRead

/-! Reads on the consumer nodes while the file is on its way: sfs_read with its wait for the copy
to grow, and the reply. A read is a thread of its own; the copy may grow between any two of its
calls. Its target_size is what the open has found published, whatever that is by now. -/
namespace F3.Transfer.Read
open Lib (Bytes)
open Lib.Posix (Errno)
open Lib.Run (run Meets)
open Driver.Data (sendFallback replyIsPrefix)
open Driver.Service (waitLoop waitsOf)

inductive Phase where
  | waiting (timeout : Nat)
  | ready
  | answered (outcomes : List (Except Errno Nat)) (result : Except Errno Bytes)
  deriving DecidableEq

-- `seen` is st_size behind each fstatat.
structure Reader where
  node : Nat
  size : Nat
  off : Nat
  targetSize : Nat
  seen : List Nat
  phase : Phase

structure State where
  transfer : Transfer.State
  readers : List Reader

/- `stat` is an fstatat with the test of the loop, `statFails` one that leaves the buffer as it
was; the first one does not fail. -/
inductive Step where
  | transfer (a : Transfer.Step)
  | request (node size off targetSize : Nat)
  | stat (i : Nat)
  | statFails (i : Nat)
  | reply (i : Nat) (outcomes : List (Except Errno Nat))

def copyOn (s : Transfer.State) (k : Nat) : Bytes := (s.nodes[k]?.map fun n => n.client.content).getD []

def Reader.test (r : Reader) (found : Nat) : Option Reader := match r.phase with
  | .waiting timeout => some {r with
      seen := r.seen ++ [found]
      phase := if found < r.off + r.size ∧ r.off + r.size < r.targetSize ∧ 0 < timeout then
          .waiting (timeout - 1)
        else .ready}
  | _ => none

def doRead (content : Bytes) (size off : Nat) (outcomes : List (Except Errno Nat)) :
    Option (Except Errno Bytes) :=
  (sendFallback 0 0 off size ⟨fun place => if place = .file 0 then content else [],outcomes⟩).map Prod.fst

def Reader.reply (r : Reader) (content : Bytes) (outcomes : List (Except Errno Nat)) : Option Reader :=
  match r.phase with
  | .ready => do
      let result ← doRead content r.size r.off outcomes
      some {r with phase := .answered outcomes result}
  | _ => none

def step (s : State) : Step → Option State
  | .transfer a => do
      let transfer ← Transfer.step s.transfer a
      some {s with transfer := transfer}
  | .request node size off targetSize =>
      some {s with readers := s.readers ++ [⟨node,size,off,targetSize,[],.waiting 24⟩]}
  | .stat i => do
      let r ← s.readers[i]?
      let r ← r.test (copyOn s.transfer r.node).length
      some {s with readers := s.readers.set i r}
  | .statFails i => do
      let r ← s.readers[i]?
      let found ← r.seen.getLast?
      let r ← r.test found
      some {s with readers := s.readers.set i r}
  | .reply i outcomes => do
      let r ← s.readers[i]?
      let r ← r.reply (copyOn s.transfer r.node) outcomes
      some {s with readers := s.readers.set i r}

def boot (transfer : Transfer.State) : State := ⟨transfer,[]⟩

inductive Tested (r : Reader) (found : Nat) : Reader → Prop where
  | again {timeout} (phase : r.phase = .waiting (timeout + 1)) (short : found < r.off + r.size)
      (inside : r.off + r.size < r.targetSize) :
      Tested r found {r with seen := r.seen ++ [found], phase := .waiting timeout}
  | ends {timeout} (phase : r.phase = .waiting timeout)
      (atEnd : ¬ (found < r.off + r.size ∧ r.off + r.size < r.targetSize ∧ 0 < timeout)) :
      Tested r found {r with seen := r.seen ++ [found], phase := .ready}

theorem tested {r found r'} (ok : Reader.test r found = some r') : Tested r found r' := by
  unfold Reader.test at ok
  split at ok <;> try contradiction
  rename_i timeout phase
  cases Option.some.inj ok
  by_cases more : found < r.off + r.size ∧ r.off + r.size < r.targetSize ∧ 0 < timeout
  · obtain ⟨left,rfl⟩ := Nat.exists_eq_add_one.mpr more.2.2
    simpa only [if_pos more,Nat.add_sub_cancel] using Tested.again phase more.1 more.2.1
  · simpa only [if_neg more] using Tested.ends phase more

inductive Stepped (s : State) : Step → State → Prop where
  | transfer {a transfer} (one : Transfer.step s.transfer a = some transfer) :
      Stepped s (.transfer a) {s with transfer := transfer}
  | request {node size off targetSize} : Stepped s (.request node size off targetSize)
      {s with readers := s.readers ++ [⟨node,size,off,targetSize,[],.waiting 24⟩]}
  | stat {i r r'} (here : s.readers[i]? = some r)
      (one : Tested r (copyOn s.transfer r.node).length r') :
      Stepped s (.stat i) {s with readers := s.readers.set i r'}
  | statFails {i r found r'} (here : s.readers[i]? = some r) (last : r.seen.getLast? = some found)
      (one : Tested r found r') : Stepped s (.statFails i) {s with readers := s.readers.set i r'}
  | reply {i r outcomes result} (here : s.readers[i]? = some r) (phase : r.phase = .ready)
      (one : doRead (copyOn s.transfer r.node) r.size r.off outcomes = some result) :
      Stepped s (.reply i outcomes)
        {s with readers := s.readers.set i {r with phase := .answered outcomes result}}

theorem stepped {s a t} (ok : step s a = some t) : Stepped s a t := by
  cases a with
  | transfer a =>
    obtain ⟨transfer,one,last⟩ := Option.bind_eq_some_iff.mp ok
    cases Option.some.inj last
    exact .transfer one
  | request node size off targetSize =>
    cases Option.some.inj ok
    exact .request
  | stat i =>
    obtain ⟨r,here,ok⟩ := Option.bind_eq_some_iff.mp ok
    obtain ⟨r',one,last⟩ := Option.bind_eq_some_iff.mp ok
    cases Option.some.inj last
    exact .stat here (tested one)
  | statFails i =>
    obtain ⟨r,here,ok⟩ := Option.bind_eq_some_iff.mp ok
    obtain ⟨found,seen,ok⟩ := Option.bind_eq_some_iff.mp ok
    obtain ⟨r',one,last⟩ := Option.bind_eq_some_iff.mp ok
    cases Option.some.inj last
    exact .statFails here seen (tested one)
  | reply i outcomes =>
    obtain ⟨r,here,ok⟩ := Option.bind_eq_some_iff.mp ok
    obtain ⟨r',one,last⟩ := Option.bind_eq_some_iff.mp ok
    cases Option.some.inj last
    unfold Reader.reply at one
    split at one <;> try contradiction
    obtain ⟨result,reads,last⟩ := Option.bind_eq_some_iff.mp one
    cases Option.some.inj last
    exact .reply here (by assumption) reads

theorem clientGrows {s a t} (ok : Client.step s a = some t) : s.content <+: t.content := by
  cases Client.stepped ok with
  | copy known here one =>
    cases one with
    | append => exact List.prefix_append _ _
    | appendError => exact List.prefix_append _ _
    | _ => exact List.prefix_refl _
  | _ => exact List.prefix_refl _

theorem copyGrows {s t : Transfer.State} {a} (ok : Transfer.step s a = some t) (k : Nat) :
    copyOn s k <+: copyOn t k := by
  have moved {j : Nat} {n n' : Node} {producer} (here : s.nodes[j]? = some n)
      (grows : n.client.content <+: n'.client.content) :
      copyOn s k <+: copyOn ⟨producer,s.nodes.set j n'⟩ k := by
    by_cases same : j = k
    · subst same
      have inside := (List.getElem?_eq_some_iff.mp here).1
      simpa [copyOn,here,List.getElem?_set_self inside] using grows
    · simp [copyOn,List.getElem?_set_ne same]
  have heard {n : Node} {a client} (one : Client.step (n.heard s.producer) a = some client) :
      n.client.content <+: client.content := by
    have grows := clientGrows one
    exact grows
  cases Transfer.stepped ok with
  | produce => exact List.prefix_refl _
  | refused => exact List.prefix_refl _
  | connect here unknown arrives one => exact moved here (heard one)
  | reuse here known one => exact moved here (heard one)
  | node here carried one => exact moved here (heard one)

section Window
variable {a b : Bytes} (grows : a <+: b) (off size : Nat)
include grows

theorem windowGrows : (a.drop off).take size <+: (b.drop off).take size := (grows.drop off).take size

theorem windowSame (inside : off + size ≤ a.length) : (a.drop off).take size = (b.drop off).take size := by
  refine (windowGrows grows off size).eq_of_length ?_
  have longer := grows.length_le
  simp only [List.length_take,List.length_drop]
  omega

end Window

theorem waitLoopPassed {observed : Nat → Nat} {upto target n timeout round : Nat} (enough : n ≤ timeout)
    (holds : ∀ j < n, observed (round + j) < upto ∧ upto < target) :
    waitLoop observed upto target timeout round = n + waitLoop observed upto target (timeout - n) (round + n) := by
  induction n generalizing timeout round with
  | zero => simp
  | succ n ih =>
    obtain ⟨left,rfl⟩ := Nat.exists_eq_add_one.mpr (Nat.lt_of_lt_of_le n.succ_pos enough)
    have first : observed round < upto ∧ upto < target := holds 0 n.succ_pos
    have rest := @ih left (round + 1) (by omega) fun j below => by
      have next := holds (j + 1) (by omega)
      rwa [← Nat.add_assoc,Nat.add_right_comm] at next
    rw [waitLoop,if_pos first,rest,Nat.add_sub_add_right,Nat.add_right_comm round 1 n,Nat.add_assoc round n 1]
    omega

def sizeAt (seen : List Nat) (round : Nat) : Nat := seen.getD round 0

def Waited (r : Reader) : Prop := match r.phase with
  | .waiting timeout => timeout + r.seen.length = 24 ∧
      ∀ found ∈ r.seen, found < r.off + r.size ∧ r.off + r.size < r.targetSize
  | _ => r.seen.length = waitsOf (sizeAt r.seen) r.size r.off r.targetSize + 1

theorem testedWaited {r found r'} (one : Tested r found r') (waited : Waited r) : Waited r' := by
  cases one with
  | @again timeout phase short inside =>
    simp only [Waited,phase] at waited
    refine ⟨by simp only [List.length_append,List.length_singleton]; omega,fun m mem => ?_⟩
    rcases List.mem_append.mp mem with mem | mem
    · exact waited.2 m mem
    · rw [List.mem_singleton.mp mem]
      exact ⟨short,inside⟩
  | @ends timeout phase atEnd =>
    simp only [Waited,phase] at waited
    obtain ⟨left,passed⟩ := waited
    have before : ∀ j < r.seen.length, sizeAt (r.seen ++ [found]) (0 + j) < r.off + r.size ∧
        r.off + r.size < r.targetSize := by
      intro j below
      have old : sizeAt (r.seen ++ [found]) (0 + j) = r.seen[j] := by
        simp [sizeAt,List.getElem?_append_left below,List.getElem?_eq_getElem below]
      rw [old]
      exact passed _ (List.getElem_mem below)
    have last : sizeAt (r.seen ++ [found]) (0 + r.seen.length) = found := by simp [sizeAt]
    have rest : 24 - r.seen.length = timeout := by omega
    have none : waitLoop (sizeAt (r.seen ++ [found])) (r.off + r.size) r.targetSize timeout
        (0 + r.seen.length) = 0 := by
      cases timeout with
      | zero => rfl
      | succ timeout => rw [waitLoop,last,if_neg fun h => atEnd ⟨h.1,h.2,timeout.succ_pos⟩]
    simp only [Waited,waitsOf]
    rw [waitLoopPassed (by omega) before,rest,none]
    simp

structure Kept (copy : Bytes) (r : Reader) : Prop where
  waited : Waited r
  seen : ∀ found ∈ r.seen, found ≤ copy.length
  bytes : ∀ outcomes bytes, r.phase = .answered outcomes (.ok bytes) →
    bytes <+: (copy.drop r.off).take r.size
  whole : ∀ result, r.phase = .answered [] result → ∀ found ∈ r.seen, r.off + r.size ≤ found →
    result = .ok ((copy.drop r.off).take r.size)

theorem keptGrows {copy later : Bytes} {r : Reader} (grows : copy <+: later) (kept : Kept copy r) :
    Kept later r where
  waited := kept.waited
  seen found mem := (kept.seen found mem).trans grows.length_le
  bytes outcomes bytes phase := (kept.bytes outcomes bytes phase).trans (windowGrows grows r.off r.size)
  whole result phase found mem long := by
    rw [← windowSame grows r.off r.size (long.trans (kept.seen found mem))]
    exact kept.whole result phase found mem long

theorem testedKept {copy : Bytes} {r found r'} (one : Tested r found r') (kept : Kept copy r)
    (there : found ≤ copy.length) : Kept copy r' := by
  have waited := testedWaited one kept.waited
  have seen : ∀ m ∈ r.seen ++ [found], m ≤ copy.length := by
    intro m mem
    rcases List.mem_append.mp mem with mem | mem
    · exact kept.seen m mem
    · rw [List.mem_singleton.mp mem]
      exact there
  cases one with
  | again => exact ⟨waited,seen,nofun,nofun⟩
  | ends => exact ⟨waited,seen,nofun,nofun⟩

theorem repliedKept {copy : Bytes} {r outcomes result} (phase : Reader.phase r = .ready)
    (one : doRead copy r.size r.off outcomes = some result) (kept : Kept copy r) :
    Kept copy {r with phase := .answered outcomes result} := by
  have waited := kept.waited
  simp only [Waited,phase] at waited
  obtain ⟨res,w',sent,front,all⟩ := replyIsPrefix 0 0 r.off r.size
    (w := ⟨fun place => if place = .file 0 then copy else [],outcomes⟩) (by simp)
  have same : res = result := by simpa [doRead,sent] using one
  subst same
  refine ⟨waited,kept.seen,?_,?_⟩
  · intro _ bytes is
    cases is
    exact front bytes rfl
  · intro _ is _ _ _
    cases is
    exact all rfl

structure Reading (s : State) : Prop where
  aligned : Aligned s.transfer
  kept : ∀ r ∈ s.readers, Kept (copyOn s.transfer r.node) r

def Guard (s : State) : Step → Prop
  | .transfer a => Safe s.transfer a
  | _ => True
instance (s a) : Decidable (Guard s a) := by
  unfold Guard
  rcases a <;> infer_instance

theorem stepReading {s a t} (inv : Reading s) (guard : Guard s a) (ok : step s a = some t) : Reading t := by
  obtain ⟨aligned,kept⟩ := inv
  have moved {i : Nat} {r' : Reader} (now : Kept (copyOn s.transfer r'.node) r') :
      Reading {s with readers := s.readers.set i r'} := by
    refine ⟨aligned,fun r mem => ?_⟩
    rcases List.mem_or_eq_of_mem_set mem with mem | rfl
    · exact kept r mem
    · exact now
  cases stepped ok with
  | transfer one =>
    exact ⟨stepAligned aligned guard one,fun r mem => keptGrows (copyGrows one r.node) (kept r mem)⟩
  | request =>
    refine ⟨aligned,fun r mem => ?_⟩
    rcases List.mem_append.mp mem with mem | mem
    · exact kept r mem
    · rw [List.mem_singleton.mp mem]
      exact ⟨⟨rfl,nofun⟩,nofun,nofun,nofun⟩
  | @stat i r r' here one =>
    have now := testedKept one (kept r (List.mem_of_getElem? here)) (Nat.le_refl _)
    cases one <;> exact moved now
  | @statFails i r found r' here last one =>
    have old := kept r (List.mem_of_getElem? here)
    have now := testedKept one old (old.seen found (List.mem_of_getLast? last))
    cases one <;> exact moved now
  | reply here phase one => exact moved (repliedKept phase one (kept _ (List.mem_of_getElem? here)))

theorem waitedLong {r : Reader} {outcomes result} (phase : r.phase = .answered outcomes result)
    (waited : Waited r) (inside : r.off + r.size < r.targetSize) (time : r.seen.length ≤ 24) :
    ∃ found ∈ r.seen, r.off + r.size ≤ found := by
  simp only [Waited,phase] at waited
  have ends := @Driver.Service.waitEnds (sizeAt r.seen) (r.off + r.size) r.targetSize 24 0
  simp only [waitsOf] at waited
  rcases ends with full | atEnd
  · omega
  · rw [Nat.zero_add] at atEnd
    have below : waitLoop (sizeAt r.seen) (r.off + r.size) r.targetSize 24 0 < r.seen.length := by omega
    refine ⟨r.seen[waitLoop (sizeAt r.seen) (r.off + r.size) r.targetSize 24 0],List.getElem_mem below,?_⟩
    have last : sizeAt r.seen (waitLoop (sizeAt r.seen) (r.off + r.size) r.targetSize 24 0) =
        r.seen[waitLoop (sizeAt r.seen) (r.off + r.size) r.targetSize 24 0] := by simp [sizeAt,below]
    rw [← last]
    exact Nat.not_lt.mp fun short => atEnd ⟨short,inside⟩

theorem readsProduced {key content count} {steps : List Step} {s : State} {i : Nat} {r : Reader} {outcomes result}
    (guard : Meets step Guard (boot (Transfer.boot (Producer.boot key content) count)) steps)
    (ok : run step (boot (Transfer.boot (Producer.boot key content) count)) steps = some s)
    (here : s.readers[i]? = some r) (done : r.phase = .answered outcomes result) :
    (∀ bytes, result = .ok bytes → bytes <+: (s.transfer.producer.content.drop r.off).take r.size) ∧
    (outcomes = [] → r.off + r.size < r.targetSize → r.seen.length ≤ 24 →
      r.off + r.size ≤ s.transfer.producer.content.length ∧
      result = .ok ((s.transfer.producer.content.drop r.off).take r.size)) := by
  have first : Reading (boot (Transfer.boot (Producer.boot key content) count)) :=
    ⟨bootAligned key content count,nofun⟩
  have inv : Reading s := Lib.Run.invariant Guard Reading stepReading first guard ok
  have kept := inv.kept r (List.mem_of_getElem? here)
  have front : copyOn s.transfer r.node <+: s.transfer.producer.content := by
    cases node : s.transfer.nodes[r.node]? with
    | none => simp [copyOn,node]
    | some n => simpa [copyOn,node] using alignedPrefix inv.aligned (List.mem_of_getElem? node)
  refine ⟨?_,?_⟩
  · rintro bytes rfl
    exact (kept.bytes outcomes bytes done).trans (windowGrows front r.off r.size)
  · rintro rfl inside time
    obtain ⟨found,mem,long⟩ := waitedLong done kept.waited inside time
    have there := long.trans (kept.seen found mem)
    refine ⟨there.trans front.length_le,?_⟩
    rw [← windowSame front r.off r.size there]
    exact kept.whole result done found mem long

/- One read waits for the copy to come, with an fstatat that fails on the way, one does not wait
and is cut short; the producer goes on writing. -/
def readers : List Step :=
  [.transfer (.produce (.openHandle 7 true)),.transfer (.produce (.write 7 0 [65,66])),
   .transfer (.request 0 (some [47,97])),.request 0 2 0 3,.request 0 2 1 0,.stat 0,
   .transfer (.produce (.serve 0 (.chunk 1))),.transfer (.node 0 (.deliver 1)),
   .transfer (.node 0 (.copy 0 (.read 1))),.transfer (.node 0 (.copy 0 .append)),.statFails 0,.stat 0,.stat 1,
   .transfer (.produce (.serve 0 (.chunk 1))),.transfer (.node 0 (.deliver 1)),
   .transfer (.node 0 (.copy 0 (.read 1))),.transfer (.node 0 (.copy 0 .append)),.stat 0,.reply 0 [],
   .reply 1 [.ok 1],.transfer (.produce (.write 7 2 [67]))]

theorem readersProduced : ∃ s ∈ run step (boot (Transfer.boot (Producer.boot [47,97] []) 1)) readers,
    ∃ r ∈ s.readers[0]?, r.phase = .answered [] (.ok [65,66]) ∧ r.seen.length = 4 ∧
      r.off + r.size ≤ s.transfer.producer.content.length ∧
      .ok [65,66] = (.ok ((s.transfer.producer.content.drop r.off).take r.size) : Except Errno Bytes) := by
  have reached : ∃ s ∈ run step (boot (Transfer.boot (Producer.boot [47,97] []) 1)) readers,
      ∃ r ∈ s.readers[0]?, r.phase = .answered [] (.ok [65,66]) ∧ r.seen.length = 4 ∧
        r.off + r.size < r.targetSize := by decide +kernel
  obtain ⟨s,ok,r,here,done,time,inside⟩ := reached
  have produced := (readsProduced (by decide +kernel) ok here done).2 rfl inside (by omega)
  exact ⟨s,ok,r,here,done,time,produced⟩

end F3.Transfer.Read
