import F3.NodeServer

/-! FUSE processes that end by themselves. The node server records the end nowhere: the
map of the processes is asked for the presence of an entry only, and the entry of a process
that has ended goes when Kill says so in the very words that the code compares with. -/
namespace F3.Csi
open Lib.Run (run Meets)

-- A process ends by itself only when it is not the entry of its volume any more.
def EndsReplaced (n : Node) : Step → Prop
  | .exit p => ∀ q ∈ n.processes[p]?, n.fuseProcs q.volume ≠ some p
  | _ => True
instance (n a) : Decidable (EndsReplaced n a) := by
  unfold EndsReplaced
  rcases a <;> infer_instance

structure Running (n : Node) : Prop where
  kept : Kept n
  live : ∀ {v p}, n.fuseProcs v = some p → ∃ q, n.processes[p]? = some q ∧ q.Live

structure Entries (n n' : Node) : Prop where
  grows : n.processes.length ≤ n'.processes.length
  each : ∀ {v p}, n'.fuseProcs v = some p → n.fuseProcs v = some p ∨ n.processes.length ≤ p

instance : IsPreorder Node Entries where
  refl _ := ⟨Nat.le_refl _,Or.inl⟩
  trans _ _ _ one two := by
    refine ⟨Nat.le_trans one.grows two.grows,fun stored => ?_⟩
    rcases two.each stored with before | new
    · exact one.each before
    · exact Or.inr (Nat.le_trans one.grows new)

theorem deletedEntries {n n' : Node} {v : String} (procs : n'.fuseProcs = Function.update n.fuseProcs v none)
    (same : n'.processes.length = n.processes.length) : Entries n n' := by
  refine ⟨Nat.le_of_eq same.symm,fun {w p} stored => Or.inl ?_⟩
  by_cases at' : w = v
  · subst at'
    simp [procs] at stored
  · rwa [procs,Function.update_of_ne at'] at stored

theorem sameEntries {n n' : Node} (procs : n'.fuseProcs = n.fuseProcs)
    (same : n'.processes.length = n.processes.length) : Entries n n' :=
  ⟨Nat.le_of_eq same.symm,fun stored => Or.inl (procs ▸ stored)⟩

theorem stepEntries {n n' : Node} {a} (ok : step n a = some n') : Entries n n' := by
  cases stepped ok with
  | @started req host admitted absent =>
    refine ⟨by simp [Node.started,Node.raised],fun {w p} stored => ?_⟩
    by_cases at' : w = req.volumeId
    · subst at'
      have isNew : n.processes.length = p := by simpa [Node.started,Node.raised] using stored
      exact Or.inr (Nat.le_of_eq isNew)
    · refine Or.inl ?_
      simpa [Node.started,Node.raised,Function.update_of_ne at'] using stored
  | mount pending => rename_i result; cases result <;> exact sameEntries rfl rfl
  | unknown => exact deletedEntries rfl rfl
  | killed =>
    refine deletedEntries rfl ?_
    simp [Node.unlocked,Node.deleted,Node.killed,Node.lowered,Node.takenBack]
  | @ended req v =>
    refine @deletedEntries n _ v ?_ rfl
    simp [Node.unlocked,Node.deleted,Node.lowered,Node.takenBack]
  | exit => exact sameEntries rfl (by simp [Node.finished])
  | _ => exact sameEntries rfl rfl

theorem runEntries {n n' : Node} {steps} (ok : run step n steps = some n') : Entries n n' := by
  refine Lib.Run.invariant (fun _ _ => True) (Entries n) (fun before _ next => ?_) (refl_of Entries n)
    (Lib.Run.meetsOfMem fun _ _ _ => trivial) ok
  exact trans_of Entries before (stepEntries next)

theorem modifyOther {processes : List Process} {f : Process → Process} {p k : Nat} {q : Process}
    (other : p ≠ k) (here : processes[k]? = some q) : (processes.modify p f)[k]? = some q := by
  simp [other,here]

theorem storedVolume {n : Node} {v w p} (kept : Kept n) (one : n.fuseProcs v = some p)
    (two : n.fuseProcs w = some p) : v = w := by
  obtain ⟨q,here,volume⟩ := kept.stored one
  obtain ⟨r,there,other⟩ := kept.stored two
  cases Option.some.inj (here.symm.trans there)
  exact volume.symm.trans other

theorem stepSpares {n n' : Node} {a v p q} (kept : Kept n) (guard : EndsReplaced n a)
    (ok : step n a = some n') (was : n.fuseProcs v = some p) (stored : n'.fuseProcs v = some p)
    (here : n.processes[p]? = some q) : n'.processes[p]? = some q := by
  cases stepped ok with
  | started admitted absent =>
    have bound := (List.getElem?_eq_some_iff.mp here).1
    simpa [Node.started,Node.raised,List.getElem?_append_left bound] using here
  | mount pending => rename_i result; cases result <;> exact here
  | @killed req w t k checked volume target entry last =>
    refine modifyOther ?_ here
    rintro rfl
    cases storedVolume kept was entry
    simp [Node.unlocked,Node.deleted] at stored
  | @exit k =>
    refine modifyOther ?_ here
    rintro rfl
    obtain ⟨r,there,volume⟩ := kept.stored was
    cases Option.some.inj (here.symm.trans there)
    exact guard q here (volume ▸ was)
  | _ => exact here

theorem stepBorn {n n' : Node} {a p q} (ok : step n a = some n') (new : n.processes.length ≤ p)
    (here : n'.processes[p]? = some q) : q.Live := by
  have bound := (List.getElem?_eq_some_iff.mp here).1
  have few : ∀ {processes : List Process}, processes.length = n.processes.length →
      processes[p]? = some q → q.Live := fun same there =>
    absurd (List.getElem?_eq_some_iff.mp there).1 (by omega)
  cases stepped ok with
  | started admitted absent =>
    have there : (n.processes ++ [⟨_,false,false⟩])[p]? = some q := here
    rw [List.getElem?_append_right new,List.getElem?_singleton] at there
    split at there <;> try contradiction
    cases Option.some.inj there
    exact ⟨rfl,rfl⟩
  | mount pending => rename_i result; cases result <;> exact few rfl here
  | killed => exact few (List.length_modify _ _ _) here
  | exit => exact few (List.length_modify _ _ _) here
  | _ => exact few rfl here

theorem stepRunning {n n' : Node} {a} (running : Running n) (guard : EndsReplaced n a)
    (ok : step n a = some n') : Running n' := by
  have kept := keptStep running.kept ok
  refine ⟨kept,fun {v p} stored => ?_⟩
  obtain ⟨r,here,_⟩ := kept.stored stored
  rcases (stepEntries ok).each stored with was | new
  · obtain ⟨q,before,live⟩ := running.live was
    exact ⟨q,stepSpares running.kept guard ok was stored before,live⟩
  · exact ⟨r,here,stepBorn ok new here⟩

theorem runRunning {n : Node} {steps} (meets : Meets step EndsReplaced newNodeServer steps)
    (ok : run step newNodeServer steps = some n) : Running n := by
  refine Lib.Run.invariant EndsReplaced Running stepRunning ?_ meets ok
  have first : run step newNodeServer [] = some newNodeServer := rfl
  exact ⟨keptRun first,by simp [newNodeServer]⟩

theorem publishedRunning {before during : List Step} {n n1 n2 n3 : Node} {req host}
    (meets : Meets step EndsReplaced newNodeServer before)
    (ran : run step newNodeServer before = some n) (call : step n (.publish req host) = some n1)
    (waits : run step n1 during = some n2)
    (replies : step n2 (.mount req.volumeId req.targetPath none) = some n3) :
    ∀ p, n1.fuseProcs req.volumeId = some p ∨ n3.fuseProcs req.volumeId = some p →
      ∀ q ∈ n.processes[p]?, q.Live := by
  have running := runRunning meets ran
  have locked := stepEntries call
  have answered := trans_of Entries (trans_of Entries locked (runEntries waits)) (stepEntries replies)
  have recorded : ∀ {n' : Node} {p}, Entries n n' → n'.fuseProcs req.volumeId = some p →
      ∀ q ∈ n.processes[p]?, q.Live := by
    intro n' p entries stored q here
    rcases entries.each stored with was | new
    · obtain ⟨r,there,live⟩ := running.live was
      cases Option.some.inj (here.symm.trans there)
      exact live
    · exact absurd (List.getElem?_eq_some_iff.mp here).1 (by omega)
  rintro p (stored | stored)
  · exact recorded locked stored
  · exact recorded answered stored

def restarted : List Step :=
  [publishOf "a",.mount "vol" "a" none,unpublishOf "a" none,.exit 0,.umount "vol" "a"]

theorem restartedRunning : ∃ n ∈ run step newNodeServer restarted, ∃ n1 ∈ step n (publishOf "b"),
    ∃ n3 ∈ step n1 (.mount "vol" "b" none), n3.replies = [.success,.success,.success] ∧
      n3.fuseProcs "vol" = some 1 ∧ ∀ q ∈ n.processes[1]?, q.Live := by
  obtain ⟨n,ran⟩ : ∃ n, run step newNodeServer restarted = some n := ⟨_,rfl⟩
  obtain ⟨n1,call⟩ : ∃ n1, step n (publishOf "b") = some n1 := by cases ran; exact ⟨_,rfl⟩
  obtain ⟨n3,reply⟩ : ∃ n3, step n1 (.mount "vol" "b" none) = some n3 := by
    cases ran
    cases call
    exact ⟨_,rfl⟩
  have stored : n3.fuseProcs "vol" = some 1 := by
    cases ran
    cases call
    cases reply
    rfl
  refine ⟨n,ran,n1,call,n3,reply,?_,stored,?_⟩
  · cases ran
    cases call
    cases reply
    rfl
  · have waits : run step n1 [] = some n1 := rfl
    exact publishedRunning (by decide) ran call waits reply 1 (.inr stored)

theorem endedPublished : ∃ n ∈ run step newNodeServer [publishOf "a",.mount "vol" "a" none,.exit 0],
    ∃ n1 ∈ step n (publishOf "b"), ∃ n3 ∈ step n1 (.mount "vol" "b" none),
      n3.replies = [.success,.success] ∧ n3.fuseProcs "vol" = some 0 ∧
      n.processes = [⟨"vol",false,true⟩] := by
  refine ⟨_,rfl,_,rfl,_,rfl,rfl,rfl,rfl⟩

def Recovers (n : Node) (v t : String) (kill : Option String) : Prop :=
  ∃ n' n'', step n (.unpublish ⟨v,t⟩ kill) = some n' ∧ n'.fuseProcs v = none ∧
    n'.fuseProcsCount v = none ∧ step n' (.umount v t) = some n'' ∧ n''.replies = n.replies ++ [.success]

theorem unpublishedLast {n : Node} {v t : String} {p} (named : v ≠ "" ∧ t ≠ "")
    (stored : n.fuseProcs v = some p) (last : (n.fuseProcsCount v).getD 0 ≤ 1) (kill : Option String) :
    step n (.unpublish ⟨v,t⟩ kill) = unpublishKill ((n.takenBack v t).lowered v) v t p kill := by
  have there : (n.takenBack v t).fuseProcs v = some p := stored
  have count : (((n.takenBack v t).lowered v).fuseProcsCount v).getD 0 ≤ 0 := by
    simp only [Node.lowered,Node.takenBack,Function.update_self,Option.getD_some]
    omega
  simp [step,nodeUnpublishVolume,unpublishChecks,named.1,named.2,unpublishLocked,there,count]

theorem endedUnpublished {n : Node} {v t text : String} {p q} (named : v ≠ "" ∧ t ≠ "")
    (stored : n.fuseProcs v = some p) (here : n.processes[p]? = some q) (ended : q.finished = true)
    (last : (n.fuseProcsCount v).getD 0 ≤ 1) :
    Recovers n v t (some text) ↔ text = alreadyFinished := by
  have tells : Tells ((n.takenBack v t).lowered v) p text := fun _ => ⟨q,here,ended⟩
  have locked := unpublishedLast named stored last (some text)
  simp only [unpublishKill,if_pos tells] at locked
  constructor
  · rintro ⟨n',_,next,gone,_⟩
    by_contra other
    rw [if_neg other] at locked
    cases Option.some.inj (locked.symm.trans next)
    exact Option.some_ne_none p (stored.symm.trans gone)
  · rintro rfl
    rw [if_pos rfl] at locked
    obtain ⟨n',same⟩ : ∃ n', n' = ((((n.takenBack v t).lowered v).deleted v).deleted v).unlocked v t := ⟨_,rfl⟩
    have waits : t ∈ n'.umounting v := by simp [same,Node.unlocked]
    rw [← same] at locked
    refine ⟨n',unpublishUmount n' v t,locked,?_,?_,if_pos waits,?_⟩
    · simp [same,Node.unlocked,Node.deleted]
    · simp [same,Node.unlocked,Node.deleted]
    · rw [same]
      rfl

def crashed : List Step := [publishOf "a",.mount "vol" "a" none,.exit 0]

theorem crashedRecovers : ∃ n ∈ run step newNodeServer crashed,
    Recovers n "vol" "a" (some "process already finished") := by
  refine ⟨_,rfl,(@endedUnpublished _ "vol" "a" _ 0 ⟨"vol",false,true⟩ ?_ ?_ ?_ ?_ ?_).mpr rfl⟩ <;> decide

theorem crashedStuck : ∃ n ∈ run step newNodeServer (crashed ++
      [unpublishOf "a" (some "os: process already finished"),
       unpublishOf "a" (some "os: process already finished")]),
    n.replies = [.success,.error .internal "os: process already finished",
      .error .internal "os: process already finished"] ∧
    n.fuseProcs "vol" = some 0 ∧ n.fuseProcsCount "vol" = some (-1) := by
  refine ⟨_,rfl,rfl,rfl,rfl⟩

end F3.Csi
