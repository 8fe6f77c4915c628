import F3.NodeServer

/-! One volume of a node: its entry, its count and the targets that hold it. A step of the
node is a move of one volume and leaves the others as they are. An unpublish too many lets
the process be killed under another target, a publish too many keeps it alive for ever. -/
namespace F3.Csi
open Lib.Run (run Meets)

structure Volume where
  proc : Option Nat
  count : Option Int
  mounting : List String
  published : Finset String
  owed : List String

def Node.volume (n : Node) (v : String) : Volume :=
  ⟨n.fuseProcs v,n.fuseProcsCount v,n.mounting v,n.published v,n.owed v⟩

inductive Moves (v : String) (b : Volume) : Step → Volume → Prop where
  | idle {a} : Moves v b a b
  | joined {req host p} (admitted : Admitted req host) (volume : req.volumeId = v)
      (stored : b.proc = some p) :
      Moves v b (.publish req host)
        {b with count := some (b.count.getD 0 + 1), mounting := req.targetPath :: b.mounting}
  | started {req host p} (admitted : Admitted req host) (volume : req.volumeId = v)
      (absent : b.proc = none) :
      Moves v b (.publish req host)
        {b with proc := some p, count := some 1, mounting := req.targetPath :: b.mounting}
  | mounted {t} (pending : t ∈ b.mounting) :
      Moves v b (.mount v t none)
        {b with mounting := b.mounting.erase t, published := insert t b.published,
                owed := t :: b.owed}
  | mountFailed {t text} (pending : t ∈ b.mounting) :
      Moves v b (.mount v t (some text))
        {b with mounting := b.mounting.erase t, owed := t :: b.owed}
  | unknown {req kill} (checked : unpublishChecks req = none) (volume : req.volumeId = v)
      (absent : b.proc = none) :
      Moves v b (.unpublish req kill)
        {b with count := none, published := b.published.erase req.targetPath,
                owed := b.owed.erase req.targetPath}
  | lowered {req kill p} (checked : unpublishChecks req = none) (volume : req.volumeId = v)
      (stored : b.proc = some p) (more : 1 < b.count.getD 0) :
      Moves v b (.unpublish req kill)
        {b with count := some (b.count.getD 0 - 1), published := b.published.erase req.targetPath,
                owed := b.owed.erase req.targetPath}
  | deleted {req kill p} (checked : unpublishChecks req = none) (volume : req.volumeId = v)
      (stored : b.proc = some p) (last : b.count.getD 0 ≤ 1) :
      Moves v b (.unpublish req kill)
        {b with proc := none, count := none, published := b.published.erase req.targetPath,
                owed := b.owed.erase req.targetPath}
  | killFailed {req kill p} (checked : unpublishChecks req = none) (volume : req.volumeId = v)
      (stored : b.proc = some p) (last : b.count.getD 0 ≤ 1) :
      Moves v b (.unpublish req kill)
        {b with count := some (b.count.getD 0 - 1), owed := b.owed.erase req.targetPath}

theorem moves {n n' : Node} {a} (ok : step n a = some n') (w : String) :
    Moves w (n.volume w) a (n'.volume w) := by
  cases stepped ok with
  | denied => exact .idle
  | @joined req host p admitted stored =>
    by_cases here : w = req.volumeId
    · subst here
      simpa [Node.volume,Node.raised] using Moves.joined (b := n.volume req.volumeId) admitted rfl stored
    · simpa [Node.volume,Node.raised,here] using Moves.idle
  | @started req host admitted absent =>
    by_cases here : w = req.volumeId
    · subst here
      simpa [Node.volume,Node.raised,Node.started] using
        Moves.started (b := n.volume req.volumeId) (p := n.processes.length) admitted rfl absent
    · simpa [Node.volume,Node.raised,Node.started,here] using Moves.idle
  | @mount v t result pending =>
    by_cases here : w = v
    · subst here
      cases result with
      | none => simpa [Node.volume,publishMount,Node.answer,Node.mounted,Node.returned] using
          Moves.mounted (b := n.volume w) pending
      | some text => simpa [Node.volume,publishMount,Node.answer,Node.returned] using
          Moves.mountFailed (b := n.volume w) pending
    · cases result <;>
        simpa [Node.volume,publishMount,Node.answer,Node.mounted,Node.returned,here] using Moves.idle
  | rejected => exact .idle
  | @unknown req kill v t checked volume target absent =>
    by_cases here : w = v
    · subst here target
      simpa [Node.volume,Node.unlocked,Node.deleted,Node.takenBack,absent] using
        Moves.unknown (b := n.volume w) checked volume absent
    · simpa [Node.volume,Node.unlocked,Node.deleted,Node.takenBack,here] using Moves.idle
  | @lowered req kill v t p checked volume target stored more =>
    by_cases here : w = v
    · subst here target
      simpa [Node.volume,Node.unlocked,Node.lowered,Node.takenBack] using
        Moves.lowered (b := n.volume w) checked volume stored more
    · simpa [Node.volume,Node.unlocked,Node.lowered,Node.takenBack,here] using Moves.idle
  | @killed req v t p checked volume target stored last =>
    by_cases here : w = v
    · subst here target
      simpa [Node.volume,Node.unlocked,Node.deleted,Node.killed,Node.lowered,Node.takenBack] using
        Moves.deleted (b := n.volume w) checked volume stored last
    · simpa [Node.volume,Node.unlocked,Node.deleted,Node.killed,Node.lowered,Node.takenBack,here]
        using Moves.idle
  | @ended req v t p q checked volume target stored last at' exited =>
    by_cases here : w = v
    · subst here target
      simpa [Node.volume,Node.unlocked,Node.deleted,Node.lowered,Node.takenBack] using
        Moves.deleted (b := n.volume w) checked volume stored last
    · simpa [Node.volume,Node.unlocked,Node.deleted,Node.lowered,Node.takenBack,here] using Moves.idle
  | @killFailed req v t p text checked volume target stored last =>
    by_cases here : w = v
    · subst here target
      simpa [Node.volume,Node.answer,Node.lowered,Node.takenBack] using
        Moves.killFailed (b := n.volume w) checked volume stored last
    · simpa [Node.volume,Node.answer,Node.lowered,Node.takenBack,here] using Moves.idle
  | umount => exact .idle
  | exit => exact .idle

def Step.volume : Step → String
  | .publish req _ => req.volumeId
  | .unpublish req _ => req.volumeId
  | .mount v _ _ | .umount v _ => v
  | .exit _ => ""

/- An unpublish gives a publish back: the target is published, or an earlier publish of it
raised the count, has returned and was not given back. A volume whose process could not be
killed is not published again before it is gone. -/
def GivesBackOn (b : Volume) : Step → Prop
  | .publish req host => Admitted req host → ∀ c ∈ b.count, 0 < c
  | .unpublish req _ => unpublishChecks req = none →
      req.targetPath ∈ b.published ∨ req.targetPath ∈ b.owed
  | _ => True
instance (b : Volume) : DecidablePred (GivesBackOn b)
  | .publish _ _ | .unpublish _ _ => by unfold GivesBackOn; infer_instance
  | .mount _ _ _ | .umount _ _ | .exit _ => isTrue trivial

def GivesBack (n : Node) (a : Step) : Prop := GivesBackOn (n.volume a.volume) a
instance (n a) : Decidable (GivesBack n a) := by unfold GivesBack; infer_instance

/- The count is the number of publishes that hold the volume, and a published target is one
of them; after a failed kill only the target that was to be unpublished can be left. -/
inductive Backed (b : Volume) : Prop where
  | none (absent : b.proc = none) (mounting : b.mounting = []) (published : b.published = ∅)
      (owed : b.owed = [])
  | held {p} {c : Int} (stored : b.proc = some p) (count : b.count = some c) (positive : 0 < c)
      (total : c = b.mounting.length + b.owed.length) (holds : ∀ t ∈ b.published, t ∈ b.owed)
  | stuck {p} {c : Int} (t : String) (stored : b.proc = some p) (count : b.count = some c) (last : c ≤ 0)
      (mounting : b.mounting = []) (owed : b.owed = []) (only : ∀ u ∈ b.published, u = t)

theorem eraseHolds {published : Finset String} {owed : List String} {t : String}
    (holds : ∀ u ∈ published, u ∈ owed) : ∀ u ∈ published.erase t, u ∈ owed.erase t := by
  intro u mem
  obtain ⟨other,mem⟩ := Finset.mem_erase.mp mem
  exact (List.mem_erase_of_ne other).mpr (holds u mem)

theorem lastUnpublished {b : Volume} {t : String} {p} (inv : Backed b) (stored : b.proc = some p)
    (last : b.count.getD 0 ≤ 1) (given : t ∈ b.published ∨ t ∈ b.owed) :
    b.mounting = [] ∧ b.owed.erase t = [] ∧ ∀ u ∈ b.published, u = t := by
  cases inv with
  | none absent => simp [absent] at stored
  | held here count positive total holds =>
    have given : t ∈ b.owed := given.elim (holds t) id
    simp only [count,Option.getD_some] at last
    have some : 0 < b.owed.length := List.length_pos_of_mem given
    obtain ⟨u,single⟩ := List.length_eq_one_iff.mp (show b.owed.length = 1 by omega)
    have same : t = u := by simpa [single] using given
    subst same
    refine ⟨List.eq_nil_of_length_eq_zero (by omega),by simp [single],fun w mem => ?_⟩
    simpa [single] using holds w mem
  | stuck u here count zero mounting owed only =>
    have left : t ∈ b.published := given.elim id (fun mem => by simp [owed] at mem)
    exact ⟨mounting,by simp [owed],fun w mem => (only w mem).trans (only t left).symm⟩

theorem mountingHeld {b : Volume} {t : String} (inv : Backed b) (pending : t ∈ b.mounting) :
    ∃ p c, b.proc = some p ∧ b.count = some c ∧ 0 < c ∧ c = b.mounting.length + b.owed.length ∧
      ∀ u ∈ b.published, u ∈ b.owed := by
  cases inv with
  | none absent mounting => simp [mounting] at pending
  | held stored count positive total holds => exact ⟨_,_,stored,count,positive,total,holds⟩
  | stuck t stored count last mounting => simp [mounting] at pending

theorem owedMounted {mounting owed : List String} {t : String} (pending : t ∈ mounting) :
    ((mounting.erase t).length : Int) + (t :: owed).length = mounting.length + owed.length := by
  have size := List.length_erase_of_mem pending
  have some := List.length_pos_of_mem pending
  rw [List.length_cons]
  omega

theorem backedMove {v a} {b b' : Volume} (inv : Backed b) (guard : a.volume = v → GivesBackOn b a)
    (move : Moves v b a b') : Backed b' := by
  cases move with
  | idle => exact inv
  | @joined req host p admitted volume stored =>
    cases inv with
    | none absent => simp [absent] at stored
    | held here count positive total holds =>
      refine .held here rfl ?_ ?_ holds
      · simp only [count,Option.getD_some]
        omega
      · simp only [count,Option.getD_some,List.length_cons]
        omega
    | stuck t here count last =>
      have positive := guard volume admitted _ count
      omega
  | @started req host p admitted volume absent =>
    cases inv with
    | none absent mounting published owed =>
      exact .held rfl rfl (by decide) (by simp [mounting,owed]) (by simp [published])
    | held stored => simp [absent] at stored
    | stuck t stored => simp [absent] at stored
  | @mounted t pending =>
    obtain ⟨p,c,stored,count,positive,total,holds⟩ := mountingHeld inv pending
    refine .held stored count positive (total.trans (owedMounted pending).symm) fun u mem => ?_
    rcases Finset.mem_insert.mp mem with rfl | mem
    · exact List.mem_cons_self
    · exact List.mem_cons_of_mem t (holds u mem)
  | @mountFailed t text pending =>
    obtain ⟨p,c,stored,count,positive,total,holds⟩ := mountingHeld inv pending
    refine .held stored count positive (total.trans (owedMounted pending).symm) fun u mem => ?_
    exact List.mem_cons_of_mem t (holds u mem)
  | @unknown req kill checked volume absent =>
    cases inv with
    | none absent mounting published owed =>
      exact .none absent mounting (by simp [published]) (by simp [owed])
    | held stored => simp [absent] at stored
    | stuck t stored => simp [absent] at stored
  | @lowered req kill p checked volume stored more =>
    cases inv with
    | none absent => simp [absent] at stored
    | held here count positive total holds =>
      have given := (guard volume checked).elim (holds _) id
      have size := List.length_erase_of_mem given
      have some := List.length_pos_of_mem given
      simp only [count,Option.getD_some] at more ⊢
      refine .held here rfl (by omega) ?_ (eraseHolds holds)
      simp only
      omega
    | stuck t here count last =>
      simp only [count,Option.getD_some] at more
      omega
  | @deleted req kill p checked volume stored last =>
    obtain ⟨mounting,owed,only⟩ := lastUnpublished inv stored last (guard volume checked)
    exact .none rfl mounting (by ext u; simpa using fun other mem => other (only u mem)) owed
  | @killFailed req kill p checked volume stored last =>
    obtain ⟨mounting,owed,only⟩ := lastUnpublished inv stored last (guard volume checked)
    exact .stuck req.targetPath stored rfl (by omega) mounting owed only

theorem backedRun {steps n} (meets : Meets step GivesBack newNodeServer steps)
    (ok : run step newNodeServer steps = some n) (v : String) : Backed (n.volume v) := by
  refine Lib.Run.invariant GivesBack (fun n => ∀ v, Backed (n.volume v)) ?_ ?_ meets ok v
  · intro n a n' inv guard next w
    exact backedMove (inv w) (fun same => same ▸ guard) (moves next w)
  · exact fun w => .none rfl rfl rfl rfl

def Kills (n n' : Node) (v : String) : Prop :=
  ∃ p < n.processes.length, ∃ q ∈ n.processes[p]?, ∃ r ∈ n'.processes[p]?,
    q.volume = v ∧ q.killed = false ∧ r.killed = true
instance (n n' v) : Decidable (Kills n n' v) := by unfold Kills; infer_instance

theorem killedBy {n n' : Node} {a v} (kept : Kept n) (ok : step n a = some n')
    (kills : Kills n n' v) : ∃ req p, a = .unpublish req none ∧ unpublishChecks req = none ∧
      req.volumeId = v ∧ n.fuseProcs v = some p ∧ (n.fuseProcsCount v).getD 0 ≤ 1 := by
  obtain ⟨k,bound,q,before,r,after,volume,alive,dead⟩ := kills
  have changed : n'.processes[k]? ≠ some q := by
    intro same
    cases Option.some.inj (after.symm.trans same)
    exact Bool.noConfusion (alive.symm.trans dead)
  cases stepped ok with
  | denied | joined | rejected | unknown | lowered | ended | killFailed | umount =>
    exact absurd before changed
  | started admitted absent =>
    refine absurd ?_ changed
    simpa [Node.raised,Node.started,List.getElem?_append_left bound] using before
  | @mount w t result pending => cases result <;> exact absurd before changed
  | @killed req w t p checked at' target stored last =>
    have here : p = k := by
      by_contra other
      refine changed ?_
      simpa [Node.unlocked,Node.deleted,Node.killed,Node.lowered,Node.takenBack,
        List.getElem?_modify,other] using before
    subst here
    obtain ⟨s,found,owner⟩ := kept.stored stored
    obtain rfl := Option.some.inj (found.symm.trans before)
    have same : w = v := owner.symm.trans volume
    exact ⟨req,p,rfl,checked,at'.trans same,same ▸ stored,same ▸ last⟩
  | @exit p =>
    have marks : (n.finished p).processes[k]? = some r := after
    simp only [Node.finished,List.getElem?_modify,show n.processes[k]? = some q from before] at marks
    by_cases here : p = k
    · simp [here] at marks
      rw [← marks] at dead
      exact Bool.noConfusion (alive.symm.trans dead)
    · simp [here] at marks
      rw [← marks] at dead
      exact Bool.noConfusion (alive.symm.trans dead)

theorem killsLast {steps n a n' v} (meets : Meets step GivesBack newNodeServer steps)
    (ok : run step newNodeServer steps = some n) (guard : GivesBack n a)
    (next : step n a = some n') (kills : Kills n n' v) :
    ∃ req, a = .unpublish req none ∧ req.volumeId = v ∧ ∀ t ∈ n.published v, t = req.targetPath := by
  obtain ⟨req,p,rfl,checked,rfl,stored,last⟩ := killedBy (keptRun ok) next kills
  exact ⟨req,rfl,rfl,(lastUnpublished (backedRun meets ok req.volumeId) stored last (guard checked)).2.2⟩

def twoPublished : List Step :=
  [publishOf "a",.mount "vol" "a" none,publishOf "b",.mount "vol" "b" none]

theorem lastTargetKills : ∃ n ∈ run step newNodeServer (twoPublished ++ [unpublishOf "a" none]),
    ∃ n' ∈ step n (unpublishOf "b" none), Kills n n' "vol" ∧ ∀ t ∈ n.published "vol", t = "b" := by
  have meets : Meets step GivesBack newNodeServer (twoPublished ++ [unpublishOf "a" none]) := by
    decide +kernel
  refine ⟨_,rfl,_,rfl,by decide +kernel,?_⟩
  obtain ⟨req,same,volume,only⟩ :=
    killsLast (a := unpublishOf "b" none) (v := "vol") meets rfl (by decide +kernel) rfl
      (by decide +kernel)
  cases same
  exact only

theorem repeatedUnpublishKills : ∃ n ∈ run step newNodeServer
      (twoPublished ++ [unpublishOf "a" none,.umount "vol" "a"]),
    ∃ n' ∈ step n (unpublishOf "a" none), Kills n n' "vol" ∧ "b" ∈ n.published "vol" := by
  decide +kernel

def PublishesOnceOn (b : Volume) : Step → Prop
  | .publish req host => Admitted req host → req.targetPath ∉ b.published ∧ req.targetPath ∉ b.mounting
  | .mount _ _ result => result = none
  | _ => True
instance (b : Volume) : DecidablePred (PublishesOnceOn b)
  | .publish _ _ | .mount _ _ _ => by unfold PublishesOnceOn; infer_instance
  | .unpublish _ _ | .umount _ _ | .exit _ => isTrue trivial

def PublishesOnce (n : Node) (a : Step) : Prop := PublishesOnceOn (n.volume a.volume) a
instance (n a) : Decidable (PublishesOnce n a) := by unfold PublishesOnce; infer_instance

def Volume.holders (b : Volume) : Nat := b.published.card + b.mounting.length

structure Covered (b : Volume) : Prop where
  distinct : b.mounting.Nodup
  apart : ∀ t ∈ b.mounting, t ∉ b.published
  bounded : b.proc ≠ none → b.count.getD 0 ≤ b.holders ∧ 0 < b.holders

theorem coveredMove {v a} {b b' : Volume} (inv : Covered b)
    (guard : a.volume = v → PublishesOnceOn b a) (move : Moves v b a b') : Covered b' := by
  have erased (t : String) : b.published.card - 1 ≤ (b.published.erase t).card :=
    Finset.pred_card_le_card_erase
  have apart (t : String) : ∀ u ∈ b.mounting, u ∉ b.published.erase t :=
    fun u mem here => inv.apart u mem (Finset.mem_of_mem_erase here)
  have joins {t : String} (fresh : t ∉ b.published) : ∀ u ∈ t :: b.mounting, u ∉ b.published :=
    List.forall_mem_cons.mpr ⟨fresh,inv.apart⟩
  cases move with
  | idle => exact inv
  | @joined req host p admitted volume stored =>
    obtain ⟨notPublished,notMounting⟩ := guard volume admitted
    have old := inv.bounded (by simp [stored])
    refine ⟨List.nodup_cons.mpr ⟨notMounting,inv.distinct⟩,joins notPublished,fun _ => ?_⟩
    simp only [Volume.holders,List.length_cons,Option.getD_some] at old ⊢
    omega
  | @started req host p admitted volume absent =>
    obtain ⟨notPublished,notMounting⟩ := guard volume admitted
    refine ⟨List.nodup_cons.mpr ⟨notMounting,inv.distinct⟩,joins notPublished,fun _ => ?_⟩
    simp only [Volume.holders,List.length_cons,Option.getD_some]
    omega
  | @mounted t pending =>
    have size := List.length_erase_of_mem pending
    have some := List.length_pos_of_mem pending
    refine ⟨inv.distinct.erase t,?_,fun stored => ?_⟩
    · intro u mem
      obtain ⟨other,mem⟩ := inv.distinct.mem_erase_iff.mp mem
      simpa [other] using inv.apart u mem
    · have old := inv.bounded stored
      simp only [Volume.holders,Finset.card_insert_of_notMem (inv.apart t pending)] at old ⊢
      omega
  | @mountFailed t text pending => cases guard rfl
  | @unknown req kill checked volume absent =>
    exact ⟨inv.distinct,apart req.targetPath,fun stored => absurd absent stored⟩
  | @lowered req kill p checked volume stored more =>
    refine ⟨inv.distinct,apart req.targetPath,fun _ => ?_⟩
    have old := inv.bounded (by simp [stored])
    have fewer := erased req.targetPath
    simp only [Volume.holders,Option.getD_some] at old ⊢
    omega
  | @deleted req kill p checked volume stored last =>
    exact ⟨inv.distinct,apart req.targetPath,fun stored => absurd rfl stored⟩
  | @killFailed req kill p checked volume stored last =>
    refine ⟨inv.distinct,inv.apart,fun _ => ?_⟩
    have old := inv.bounded (by simp [stored])
    simp only [Volume.holders,Option.getD_some] at old ⊢
    omega

theorem coveredRun {steps n} (meets : Meets step PublishesOnce newNodeServer steps)
    (ok : run step newNodeServer steps = some n) (v : String) : Covered (n.volume v) := by
  refine Lib.Run.invariant PublishesOnce (fun n => ∀ v, Covered (n.volume v)) ?_ ?_ meets ok v
  · intro n a n' inv guard next w
    exact coveredMove (inv w) (fun same => same ▸ guard) (moves next w)
  · exact fun w => ⟨List.nodup_nil,by simp [newNodeServer,Node.volume],fun stored => absurd rfl stored⟩

theorem unpublishedGone {steps n v} (meets : Meets step PublishesOnce newNodeServer steps)
    (ok : run step newNodeServer steps = some n) (returned : n.mounting v = [])
    (unpublished : n.published v = ∅) :
    n.fuseProcs v = none ∧ n.fuseProcsCount v = none ∧
      ∀ q ∈ n.processes, q.volume = v → q.killed = true ∨ q.finished = true := by
  have kept := keptRun ok
  have gone : n.fuseProcs v = none := by
    by_contra stored
    have holders := ((coveredRun meets ok v).bounded stored).2
    simp [Volume.holders,Node.volume,returned,unpublished] at holders
  refine ⟨gone,?_,fun q mem volume => ?_⟩
  · have keys := kept.keys v
    rw [gone] at keys
    simpa using keys.symm
  · by_contra runs
    simp only [not_or,Bool.not_eq_true] at runs
    obtain ⟨p,here⟩ := List.mem_iff_getElem?.mp mem
    have stored := kept.live here runs
    rw [volume,gone] at stored
    cases stored

theorem unpublishedBothGone : ∃ n ∈ run step newNodeServer (twoPublished ++
      [unpublishOf "b" none,unpublishOf "a" (some "operation not permitted"),unpublishOf "a" none]),
    n.fuseProcs "vol" = none ∧ n.fuseProcsCount "vol" = none ∧
      ∀ q ∈ n.processes, q.volume = "vol" → q.killed = true ∨ q.finished = true := by
  have meets : Meets step PublishesOnce newNodeServer (twoPublished ++
      [unpublishOf "b" none,unpublishOf "a" (some "operation not permitted"),
       unpublishOf "a" none]) := by
    decide +kernel
  exact ⟨_,rfl,unpublishedGone meets rfl rfl rfl⟩

theorem failedMountLeaks : ∃ n ∈ run step newNodeServer
      [publishOf "a",.mount "vol" "a" (some "exit status 32"),publishOf "a",
       .mount "vol" "a" none,unpublishOf "a" none,.umount "vol" "a"],
    n.published "vol" = ∅ ∧ n.mounting "vol" = [] ∧ n.fuseProcs "vol" = some 0 ∧
      n.fuseProcsCount "vol" = some 1 ∧ n.processes = [⟨"vol",false,false⟩] := by
  decide +kernel

end F3.Csi
