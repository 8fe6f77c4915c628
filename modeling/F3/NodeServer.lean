import F3.Lib.Run
import Mathlib.Data.Finset.Card
import Mathlib.Logic.Function.Basic

/-! The node server of the CSI plugin. One step is what one call does up to the release of
ns.lock, what it does after that, or the end of a FUSE process by itself; calls overlap in
any order. What the host answers (stat, the claims, the start, the mount and the kill) is
part of the step. A panic ends the plugin, so a step that panics has no result. -/
namespace F3.Csi
open Lib.Run (run)

inductive Code where
  | invalidArgument | internal | unavailable
  deriving DecidableEq, Repr

inductive Reply where
  | success
  | error (code : Code) (message : String)
  deriving DecidableEq, Repr

inductive Stat where
  | present | notExist
  | error (text : String)
  deriving DecidableEq, Repr

inductive Pvcs where
  | noConfig | noClient
  | items (volumeNames : List String)
  deriving DecidableEq, Repr

/- Without a config the token file is set through a nil pointer, and Items[0] is read
before the error of the list call is looked at. -/
def getPVCName : Pvcs → Option String
  | .noConfig => none
  | .noClient => some ""
  | .items [] => none
  | .items (name::_) => some name

structure PublishRequest where
  volumeCapability : Bool
  volumeId : String
  targetPath : String
  podUid : String
  deriving DecidableEq, Repr

structure UnpublishRequest where
  volumeId : String
  targetPath : String
  deriving DecidableEq, Repr

structure Host where
  target : Stat
  mkdirAll : Option String
  files : List String
  f3Pvc : Pvcs
  fsPvc : Pvcs
  cephMount : Stat
  start : Option String
  deriving DecidableEq, Repr

structure Process where
  volume : String
  killed : Bool
  finished : Bool
  deriving DecidableEq, Repr

def Process.Live (p : Process) : Prop := p.killed = false ∧ p.finished = false
instance (p : Process) : Decidable p.Live := by unfold Process.Live; infer_instance

/- fuseProcs and fuseProcsCount are the maps of NodeServer; a process is named by its place
in `processes`. `mounting` and `umounting` are the targets of the calls that have left the
lock and not returned. A volume's target is in `published` from the return of a successful
publish until an unpublish of it leaves the lock without an error: nothing after that can
fail. `owed` has one entry for each publish that has raised the count and returned, until
an unpublish of the same target takes it. -/
structure Node where
  fuseProcs : String → Option Nat
  fuseProcsCount : String → Option Int
  processes : List Process
  mounting : String → List String
  umounting : String → List String
  replies : List Reply
  published : String → Finset String
  owed : String → List String

def newNodeServer : Node where
  fuseProcs := fun _ => none
  fuseProcsCount := fun _ => none
  processes := []
  mounting := fun _ => []
  umounting := fun _ => []
  replies := []
  published := fun _ => ∅
  owed := fun _ => []

section Calls
variable (n : Node) (v t : String)

def Node.answer (reply : Reply) : Node := {n with replies := n.replies ++ [reply]}

def Node.started : Node :=
  {n with processes := n.processes ++ [⟨v,false,false⟩],
          fuseProcs := Function.update n.fuseProcs v (some n.processes.length),
          fuseProcsCount := Function.update n.fuseProcsCount v (some 0)}

def Node.raised : Node :=
  {n with fuseProcsCount := Function.update n.fuseProcsCount v
            (some ((n.fuseProcsCount v).getD 0 + 1)),
          mounting := Function.update n.mounting v (t :: n.mounting v)}

def Node.lowered : Node :=
  {n with fuseProcsCount := Function.update n.fuseProcsCount v
            (some ((n.fuseProcsCount v).getD 0 - 1))}

def Node.takenBack : Node := {n with owed := Function.update n.owed v ((n.owed v).erase t)}

def Node.deleted : Node :=
  {n with fuseProcs := Function.update n.fuseProcs v none,
          fuseProcsCount := Function.update n.fuseProcsCount v none}

def Node.killed (p : Nat) : Node :=
  {n with processes := n.processes.modify p (fun q => {q with killed := true})}

def Node.finished (p : Nat) : Node :=
  {n with processes := n.processes.modify p (fun q => {q with finished := true})}

def Node.unlocked : Node :=
  {n with umounting := Function.update n.umounting v (t :: n.umounting v),
          published := Function.update n.published v ((n.published v).erase t)}

def Node.returned : Node :=
  {n with mounting := Function.update n.mounting v ((n.mounting v).erase t),
          owed := Function.update n.owed v (t :: n.owed v)}

def Node.mounted : Node :=
  {n with published := Function.update n.published v (insert t (n.published v))}

end Calls

def publishChecks (req : PublishRequest) (host : Host) : ExceptT Reply Option Unit := do
  if !req.volumeCapability then
    throw (.error .invalidArgument "Volume capability missing in request")
  if req.volumeId = "" then throw (.error .invalidArgument "Volume ID missing in request")
  if req.targetPath = "" then throw (.error .invalidArgument "Target path not provided")
  match host.target with
    | .present => pure ()
    | .notExist => match host.mkdirAll with
        | none => pure ()
        | some text => throw (.error .internal text)
    | .error text => throw (.error .internal text)
  let _ ← getPVCName host.f3Pvc
  let fsPvc ← getPVCName host.fsPvc
  -- the listing of the pod's directory is empty when ReadDir fails
  if fsPvc ∉ host.files then throw (.error .unavailable "Ceph not mounted yet")
  match host.cephMount with
    | .present => pure ()
    | .notExist => throw (.error .unavailable "Ceph mount doesn't exist yet")
    | .error text => throw (.error .internal text)

-- podUID[0:8] is formatted for the log before the process is started.
def publishLocked (n : Node) (req : PublishRequest) (start : Option String) : Option Node :=
  match n.fuseProcs req.volumeId with
  | some _ => some (n.raised req.volumeId req.targetPath)
  | none =>
      if req.podUid.utf8ByteSize < 8 then none
      else match start with
        | some text => some (n.answer (.error .internal text))
        | none => some ((n.started req.volumeId).raised req.volumeId req.targetPath)

def nodePublishVolume (n : Node) (req : PublishRequest) (host : Host) : Option Node := do
  match ← (publishChecks req host).run with
  | .error reply => some (n.answer reply)
  | .ok () => publishLocked n req host.start

def publishMount (n : Node) (v t : String) : Option String → Node
  | some text => (n.returned v t).answer (.error .internal text)
  | none => ((n.returned v t).mounted v t).answer .success

def unpublishChecks (req : UnpublishRequest) : Option Reply :=
  if req.volumeId = "" then some (.error .invalidArgument "Volume ID missing in request")
  else if req.targetPath = "" then some (.error .invalidArgument "Target path missing in request")
  else none

def alreadyFinished : String := "process already finished"

/- Kill gives this text of a process that has ended, and of no other; what else it says, and
whether it succeeds, is open. -/
def Tells (n : Node) (p : Nat) (text : String) : Prop :=
  text = alreadyFinished → ∃ q ∈ n.processes[p]?, q.finished = true
instance (n p text) : Decidable (Tells n p text) := by unfold Tells; infer_instance

def unpublishKill (n : Node) (v t : String) (p : Nat) : Option String → Option Node
  | none => some (((n.killed p).deleted v).unlocked v t)
  | some text =>
      if Tells n p text then
        if text = alreadyFinished then some (((n.deleted v).deleted v).unlocked v t)
        else some (n.answer (.error .internal text))
      else none

def unpublishLocked (n : Node) (v t : String) (kill : Option String) : Option Node :=
  match n.fuseProcs v with
  | none => some ((n.deleted v).unlocked v t)
  | some p =>
      let n := n.lowered v
      if (n.fuseProcsCount v).getD 0 ≤ 0 then unpublishKill n v t p kill
      else some (n.unlocked v t)

def nodeUnpublishVolume (n : Node) (req : UnpublishRequest) (kill : Option String) : Option Node :=
  match unpublishChecks req with
  | some reply => some (n.answer reply)
  | none => unpublishLocked (n.takenBack req.volumeId req.targetPath) req.volumeId req.targetPath kill

def unpublishUmount (n : Node) (v t : String) : Node :=
  Node.answer {n with umounting := Function.update n.umounting v ((n.umounting v).erase t)} .success

inductive Step where
  | publish (req : PublishRequest) (host : Host)
  | mount (v t : String) (result : Option String)
  | unpublish (req : UnpublishRequest) (kill : Option String)
  | umount (v t : String)
  | exit (p : Nat)
  deriving DecidableEq, Repr

def step (n : Node) : Step → Option Node
  | .publish req host => nodePublishVolume n req host
  | .mount v t result => if t ∈ n.mounting v then some (publishMount n v t result) else none
  | .unpublish req kill => nodeUnpublishVolume n req kill
  | .umount v t => if t ∈ n.umounting v then some (unpublishUmount n v t) else none
  | .exit p => if p < n.processes.length then some (n.finished p) else none

abbrev Admitted (req : PublishRequest) (host : Host) : Prop :=
  (publishChecks req host).run = some (.ok ())

inductive Stepped (n : Node) : Step → Node → Prop where
  | denied {req host reply} : Stepped n (.publish req host) (n.answer reply)
  | joined {req host p} (admitted : Admitted req host) (stored : n.fuseProcs req.volumeId = some p) :
      Stepped n (.publish req host) (n.raised req.volumeId req.targetPath)
  | started {req host} (admitted : Admitted req host) (absent : n.fuseProcs req.volumeId = none) :
      Stepped n (.publish req host) ((n.started req.volumeId).raised req.volumeId req.targetPath)
  | mount {v t result} (pending : t ∈ n.mounting v) :
      Stepped n (.mount v t result) (publishMount n v t result)
  | rejected {req kill reply} : Stepped n (.unpublish req kill) (n.answer reply)
  | unknown {req kill v t} (checked : unpublishChecks req = none) (volume : req.volumeId = v)
      (target : req.targetPath = t) (absent : n.fuseProcs v = none) :
      Stepped n (.unpublish req kill) (((n.takenBack v t).deleted v).unlocked v t)
  | lowered {req kill v t p} (checked : unpublishChecks req = none) (volume : req.volumeId = v)
      (target : req.targetPath = t) (stored : n.fuseProcs v = some p)
      (more : 1 < (n.fuseProcsCount v).getD 0) :
      Stepped n (.unpublish req kill) (((n.takenBack v t).lowered v).unlocked v t)
  | killed {req v t p} (checked : unpublishChecks req = none) (volume : req.volumeId = v)
      (target : req.targetPath = t) (stored : n.fuseProcs v = some p)
      (last : (n.fuseProcsCount v).getD 0 ≤ 1) :
      Stepped n (.unpublish req none)
        (((((n.takenBack v t).lowered v).killed p).deleted v).unlocked v t)
  | ended {req v t p q} (checked : unpublishChecks req = none) (volume : req.volumeId = v)
      (target : req.targetPath = t) (stored : n.fuseProcs v = some p)
      (last : (n.fuseProcsCount v).getD 0 ≤ 1) (here : n.processes[p]? = some q)
      (exited : q.finished = true) :
      Stepped n (.unpublish req (some alreadyFinished))
        (((((n.takenBack v t).lowered v).deleted v).deleted v).unlocked v t)
  | killFailed {req v t p text} (checked : unpublishChecks req = none) (volume : req.volumeId = v)
      (target : req.targetPath = t) (stored : n.fuseProcs v = some p)
      (last : (n.fuseProcsCount v).getD 0 ≤ 1) :
      Stepped n (.unpublish req (some text))
        (((n.takenBack v t).lowered v).answer (.error .internal text))
  | umount {v t} : Stepped n (.umount v t) (unpublishUmount n v t)
  | exit {p} : Stepped n (.exit p) (n.finished p)

theorem publishStepped {n n' : Node} {req host} (ok : nodePublishVolume n req host = some n') :
    Stepped n (.publish req host) n' := by
  obtain ⟨outcome,checked,ok⟩ := Option.bind_eq_some_iff.mp ok
  cases outcome with
  | error reply =>
    cases Option.some.inj ok
    exact .denied
  | ok =>
    simp only [publishLocked] at ok
    split at ok
    · rename_i p stored
      cases Option.some.inj ok
      exact .joined checked stored
    · rename_i absent
      split at ok <;> try contradiction
      split at ok
      · cases Option.some.inj ok
        exact .denied
      · cases Option.some.inj ok
        exact .started checked absent

theorem unpublishStepped {n n' : Node} {req kill} (ok : nodeUnpublishVolume n req kill = some n') :
    Stepped n (.unpublish req kill) n' := by
  unfold nodeUnpublishVolume at ok
  split at ok
  · cases Option.some.inj ok
    exact .rejected
  rename_i checked
  unfold unpublishLocked at ok
  split at ok
  · rename_i absent
    cases Option.some.inj ok
    exact .unknown checked rfl rfl absent
  rename_i p stored
  have count : (((n.takenBack req.volumeId req.targetPath).lowered req.volumeId).fuseProcsCount
      req.volumeId).getD 0 = (n.fuseProcsCount req.volumeId).getD 0 - 1 := by
    simp [Node.lowered,Node.takenBack]
  simp only [count] at ok
  split at ok
  · rename_i last
    have last : (n.fuseProcsCount req.volumeId).getD 0 ≤ 1 := by omega
    cases kill with
    | none =>
      cases Option.some.inj ok
      exact .killed checked rfl rfl stored last
    | some text =>
      simp only [unpublishKill] at ok
      split at ok <;> try contradiction
      rename_i tells
      split at ok
      · rename_i same
        subst same
        obtain ⟨q,here,finished⟩ := tells rfl
        cases Option.some.inj ok
        exact .ended checked rfl rfl stored last here finished
      · cases Option.some.inj ok
        exact .killFailed checked rfl rfl stored last
  · rename_i more
    cases Option.some.inj ok
    exact .lowered checked rfl rfl stored (by omega)

theorem stepped {n n' : Node} {a} (ok : step n a = some n') : Stepped n a n' := by
  cases a with
  | publish req host => exact publishStepped ok
  | mount v t result =>
    simp only [step] at ok
    split at ok <;> try contradiction
    rename_i pending
    cases Option.some.inj ok
    exact .mount pending
  | unpublish req kill => exact unpublishStepped ok
  | umount v t =>
    simp only [step] at ok
    split at ok <;> try contradiction
    cases Option.some.inj ok
    exact .umount
  | exit p =>
    simp only [step] at ok
    split at ok <;> try contradiction
    cases Option.some.inj ok
    exact .exit

structure Kept (n : Node) : Prop where
  keys : ∀ v, (n.fuseProcs v).isSome = (n.fuseProcsCount v).isSome
  stored : ∀ {v p}, n.fuseProcs v = some p → ∃ q, n.processes[p]? = some q ∧ q.volume = v
  live : ∀ {p q}, n.processes[p]? = some q → q.Live → n.fuseProcs q.volume = some p

section Keys
variable {n : Node} {v t : String} {p : Nat}

theorem keptFrame {n' : Node} (kept : Kept n) (procs : n'.fuseProcs = n.fuseProcs)
    (counts : n'.fuseProcsCount = n.fuseProcsCount) (same : n'.processes = n.processes) :
    Kept n' where
  keys := by simpa [procs,counts] using kept.keys
  stored := by simpa [procs,same] using @kept.stored
  live := by simpa [procs,same] using @kept.live

theorem keptCount {n' : Node} {c : Int} (kept : Kept n) (here : n.fuseProcs v = some p)
    (procs : n'.fuseProcs = n.fuseProcs)
    (counts : n'.fuseProcsCount = Function.update n.fuseProcsCount v (some c))
    (same : n'.processes = n.processes) : Kept n' where
  keys := by
    intro w
    rw [procs,counts]
    by_cases at' : w = v
    · subst at'
      simp [here]
    · simp [Function.update_of_ne at',kept.keys w]
  stored := by simpa [procs,same] using @kept.stored
  live := by simpa [procs,same] using @kept.live

theorem keptStarted (kept : Kept n) (absent : n.fuseProcs v = none) : Kept (n.started v) where
  keys := by
    intro w
    by_cases at' : w = v
    · subst at'
      simp [Node.started]
    · simp [Node.started,Function.update_of_ne at',kept.keys w]
  stored := by
    intro w k found
    by_cases at' : w = v
    · subst at'
      simp only [Node.started,Function.update_self,Option.some.injEq] at found
      subst found
      exact ⟨⟨w,false,false⟩,by simp [Node.started],rfl⟩
    · simp only [Node.started,Function.update_of_ne at'] at found
      obtain ⟨q,here,volume⟩ := kept.stored found
      have bound := (List.getElem?_eq_some_iff.mp here).1
      exact ⟨q,by simpa [Node.started,List.getElem?_append_left bound] using here,volume⟩
  live := by
    intro k q here live
    simp only [Node.started] at here ⊢
    rcases Nat.lt_or_ge k n.processes.length with old | new
    · rw [List.getElem?_append_left old] at here
      have found := kept.live here live
      have other : q.volume ≠ v := by
        intro same
        rw [same,absent] at found
        cases found
      rw [Function.update_of_ne other,found]
    · rw [List.getElem?_append_right new,List.getElem?_singleton] at here
      split at here <;> try contradiction
      rename_i zero
      cases Option.some.inj here
      rw [Function.update_self,show k = n.processes.length by omega]

theorem keptDeleted {n' : Node} (kept : Kept n)
    (procs : n'.fuseProcs = Function.update n.fuseProcs v none)
    (counts : n'.fuseProcsCount = Function.update n.fuseProcsCount v none)
    (volumes : ∀ (k : Nat) (q : Process), n.processes[k]? = some q →
      ∃ r, n'.processes[k]? = some r ∧ r.volume = q.volume)
    (before : ∀ (k : Nat) (r : Process), n'.processes[k]? = some r → r.Live →
      n.processes[k]? = some r ∧ n.fuseProcs v ≠ some k) : Kept n' where
  keys := by
    intro w
    rw [procs,counts]
    by_cases at' : w = v
    · subst at'
      simp
    · simp [Function.update_of_ne at',kept.keys w]
  stored := by
    intro w k found
    rw [procs] at found
    by_cases at' : w = v
    · subst at'
      simp at found
    · rw [Function.update_of_ne at'] at found
      obtain ⟨q,here,volume⟩ := kept.stored found
      obtain ⟨r,now,same⟩ := volumes k q here
      exact ⟨r,now,same.trans volume⟩
  live := by
    intro k r here live
    obtain ⟨old,other⟩ := before k r here live
    have found := kept.live old live
    rw [procs,Function.update_of_ne ?_,found]
    intro same
    exact other (same ▸ found)

end Keys

theorem modifyVolume {processes : List Process} {f : Process → Process} {p k : Nat} {q : Process}
    (keeps : (f q).volume = q.volume) (here : processes[k]? = some q) :
    ∃ r, (processes.modify p f)[k]? = some r ∧ r.volume = q.volume := by
  rw [List.getElem?_modify,here]
  by_cases at' : p = k
  · exact ⟨f q,by simp [at'],keeps⟩
  · exact ⟨q,by simp [at'],rfl⟩

theorem modifyLive {processes : List Process} {f : Process → Process} (ends : ∀ q, ¬ (f q).Live)
    {p k : Nat} {r : Process} (here : (processes.modify p f)[k]? = some r) (live : r.Live) :
    processes[k]? = some r ∧ p ≠ k := by
  rw [List.getElem?_modify] at here
  obtain ⟨q,old,same⟩ := Option.map_eq_some_iff.mp here
  by_cases at' : p = k
  · simp only [at',if_true] at same
    subst same
    exact absurd live (ends q)
  · simp only [at',if_false] at same
    subst same
    exact ⟨old,at'⟩

theorem keptFinished {n : Node} {p} (kept : Kept n) : Kept (n.finished p) where
  keys := kept.keys
  stored := by
    intro v k found
    obtain ⟨q,here,volume⟩ := kept.stored found
    obtain ⟨r,now,same⟩ := modifyVolume (p := p)
      (f := fun q => {q with finished := true}) rfl here
    exact ⟨r,now,same.trans volume⟩
  live := fun here live =>
    kept.live (modifyLive (fun _ dead => Bool.noConfusion dead.2) here live).1 live

theorem keptStep {n n' : Node} {a} (kept : Kept n) (ok : step n a = some n') : Kept n' := by
  cases stepped ok with
  | denied => exact keptFrame kept rfl rfl rfl
  | joined admitted stored => exact keptCount kept stored rfl rfl rfl
  | @started req host admitted absent =>
    exact keptCount (v := req.volumeId) (p := n.processes.length) (keptStarted kept absent)
      (by simp [Node.started]) rfl rfl rfl
  | @mount v t result pending =>
    cases result <;> exact keptFrame kept rfl rfl rfl
  | rejected => exact keptFrame kept rfl rfl rfl
  | @unknown req kill v t checked volume target absent =>
    refine keptDeleted (v := v) kept rfl rfl (fun k q here => ⟨q,here,rfl⟩) ?_
    intro k r here live
    exact ⟨here,by rw [absent]; exact Option.some_ne_none k |>.symm⟩
  | lowered checked volume target stored more => exact keptCount kept stored rfl rfl rfl
  | @killed req v t p checked volume target stored last =>
    have after : Kept ((n.takenBack v t).lowered v) := keptCount kept stored rfl rfl rfl
    refine keptDeleted (v := v) after rfl rfl (fun k q here => modifyVolume rfl here) ?_
    intro k r here live
    obtain ⟨old,other⟩ := modifyLive (fun _ dead => Bool.noConfusion dead.1) here live
    exact ⟨old,fun same => other (Option.some.inj (stored.symm.trans same))⟩
  | @ended req v t p q checked volume target stored last at' exited =>
    have after : Kept ((n.takenBack v t).lowered v) := keptCount kept stored rfl rfl rfl
    have gone : ∀ k r, n.processes[k]? = some r → r.Live → n.fuseProcs v ≠ some k := by
      intro k r here live same
      obtain rfl := Option.some.inj (stored.symm.trans same)
      obtain rfl := Option.some.inj (at'.symm.trans here)
      exact Bool.noConfusion (live.2.symm.trans exited)
    refine keptDeleted (v := v) after ?_ ?_ (fun k q here => ⟨q,here,rfl⟩) ?_
    · simp [Node.deleted,Node.unlocked]
    · simp [Node.deleted,Node.unlocked]
    · exact fun k r here live => ⟨here,gone k r here live⟩
  | killFailed checked volume target stored last => exact keptCount kept stored rfl rfl rfl
  | umount => exact keptFrame kept rfl rfl rfl
  | exit => exact keptFinished kept

theorem keptRun {steps n} (ok : run step newNodeServer steps = some n) : Kept n := by
  refine Lib.Run.invariant (fun _ _ => True) Kept (fun kept _ => keptStep kept) ?_
    (Lib.Run.meetsOfMem fun _ _ _ => trivial) ok
  exact ⟨fun _ => rfl,(by simp [newNodeServer]),(by simp [newNodeServer])⟩

theorem noOrphan {steps n} (ok : run step newNodeServer steps = some n) :
    (∀ v, n.fuseProcs v = none ↔ n.fuseProcsCount v = none) ∧
    (∀ (p q : Nat) (r s : Process), n.processes[p]? = some r → n.processes[q]? = some s → r.Live → s.Live →
      r.volume = s.volume → p = q) ∧
    (∀ (p : Nat) (r : Process), n.processes[p]? = some r → r.Live → n.fuseProcs r.volume = some p) := by
  have kept := keptRun ok
  refine ⟨fun v => ?_,?_,fun p r => kept.live⟩
  · rw [← Option.isNone_iff_eq_none,← Option.isNone_iff_eq_none,← Option.not_isSome,
      ← Option.not_isSome,kept.keys v]
  · intro p q r s here there liveR liveS same
    have stored := kept.live here liveR
    rw [same,kept.live there liveS] at stored
    exact (Option.some.inj stored).symm

def publishOf (t : String) : Step :=
  .publish ⟨true,"vol",t,"0a1b2c3d-4e"⟩
    ⟨.present,none,["fs-pv"],.items ["f3-pv"],.items ["fs-pv"],.present,none⟩

def unpublishOf (t : String) (kill : Option String) : Step := .unpublish ⟨"vol",t⟩ kill

def overlapping : List Step :=
  [publishOf "a",publishOf "b",.mount "vol" "b" (some "exit status 32"),unpublishOf "b" none,
   unpublishOf "a" (some "operation not permitted"),unpublishOf "a" none,.mount "vol" "a" none,
   publishOf "b"]

theorem secondProcessStored : ∃ n ∈ run step newNodeServer overlapping,
    n.processes = [⟨"vol",true,false⟩,⟨"vol",false,false⟩] ∧ n.fuseProcs "vol" = some 1 := by
  obtain ⟨n,ok⟩ : ∃ n, run step newNodeServer overlapping = some n := ⟨_,rfl⟩
  have processes : n.processes = [⟨"vol",true,false⟩,⟨"vol",false,false⟩] := by
    cases ok
    rfl
  exact ⟨n,ok,processes,(noOrphan ok).2.2 1 ⟨"vol",false,false⟩ (by simp [processes]) ⟨rfl,rfl⟩⟩

end F3.Csi
