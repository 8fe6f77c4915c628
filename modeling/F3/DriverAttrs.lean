import F3.DriverCopies
import F3.DriverDurable

/-! The user attributes of the two copies of an inode: what every request keeps of their being
the same, for one driver beside others on the same shared tree. -/
namespace F3.Driver.Attrs
open Lib (Bytes Arena Cell Prog Act)
open Lib.Prog (keepsBind bindSome pureSome)
open Lib.Posix
open Fds Owners Copies

abbrev attrs (m : Mount Call) (ino : Ino) : Bytes → Option Bytes := (m.vol.nodes ino).xattr

structure Twins (others : List Ino) (d : State) : Prop where
  books : Books others d.fs
  idBooks : Books [] d.id
  dated : Dated d
  alike : ∀ f g, Paired d f g → attrs d.fs f.entry.ino = attrs d.id g.entry.ino

structure Spares (others : List Ino) (d d' : State) : Prop where
  twins : Twins others d'
  theirs : ∀ ino ∈ others, attrs d'.fs ino = attrs d.fs ino

abbrev Sparing (others : List Ino) : State → State → Prop :=
  Durable.Both (Steady (SameBut none) others) (Steady (SameBut none) [])

section Steady
variable {others : List Ino} {d d1 d' : State}

theorem Spares.trans (one : Spares others d d1) (two : Spares others d1 d') : Spares others d d' :=
  ⟨two.twins,fun ino mem => (two.theirs ino mem).trans (one.theirs ino mem)⟩

theorem stayedAlike (twins : Twins others d) (sparing : Sparing others d d') {f g : File}
    (stayed : Stayed d d' f g) : attrs d'.fs f.entry.ino = attrs d'.id g.entry.ino := by
  obtain ⟨n,below,file⟩ := stayed.fs
  obtain ⟨k,belowId,copy⟩ := stayed.id
  have fs := sparing.1.own twins.books below file (by simp)
  have id := sparing.2.own twins.idBooks belowId copy (by simp)
  rw [attrs,attrs,fs,id]
  exact twins.alike f g stayed.was

theorem steadySpares (twins : Twins others d) (slots : Slots d d') (sparing : Sparing others d d') :
    Spares others d d' := by
  refine ⟨⟨sparing.1.books twins.books,sparing.2.books twins.idBooks,?_,fun f g paired => ?_⟩,fun ino mem => ?_⟩
  · exact slotsDated slots sparing.1.ages.next sparing.2.ages.next twins.dated
  · exact stayedAlike twins sparing (slotsStayed slots twins.dated sparing.1.ages sparing.2.ages paired)
  · exact sparing.1.theirs twins.books mem (by simp)

theorem repliesSpares (twins : Twins others d) (replies : List Reply) :
    Spares others d {d with replies := replies} :=
  steadySpares twins (sameSlots rfl rfl) (Durable.sameBoth rfl rfl)

end Steady

section Lookup
variable {others : List Ino} {d d' : State} {parent : Ref} {name : FileName} {e : Env Call} {dir : Inode}

def attrsAt (m : Mount Call) (dir : Slot) (name : FileName) : Bytes → Option Bytes :=
  match foundAt m dir name with
  | some entry => attrs m entry.ino
  | none => fun _ => none

def LookAlike (d : State) (dir : Inode) (name : FileName) : Prop := ∀ entry ∈ foundAt d.fs dir.fd name,
  (slotted d (entry.ino,d.fs.vol.dev)).Live ∨ attrs d.fs entry.ino = attrsAt d.id dir.idFd name

theorem copyAttrs {idDir : Slot} {kind : Kind} {m n : Mount Call} {copy : Slot} {g : File}
    (copied : CopyRan idDir name kind m copy n) (file : n.file copy = some g) :
    attrs n g.entry.ino = attrsAt m idDir name := by
  cases copied with
  | found quiet entry =>
    unfold attrsAt
    rw [entry g file,attrs,quiet.nodes]
  | @made up q c ino v at_ make tree nodes entry =>
    obtain ⟨_,ok,_,made,_⟩ := makeOk make
    have absent : foundAt m idDir name = none := (foundAtPath at_).trans ok.2.1
    unfold attrsAt
    rw [absent,entry g file,attrs,nodes,made]
    simp [Volume.setNode]

theorem lookupSpares {r} (twins : Twins others d) (known : d.inode parent = some dir)
    (alike : LookAlike d dir name) (ok : doLookup parent name e d = some (r,d')) : Spares others d d' := by
  have sparing : Sparing others d d' := Durable.lookupBoth parent name e d r d' ok
  cases lookupGained known ok with
  | nothing slots _ => exact steadySpares twins slots sparing
  | @pair entry copy found dead copied each file next idNext =>
    have looks := doLookupLooks parent name e d r d' ok
    refine ⟨⟨sparing.1.books twins.books,sparing.2.books twins.idBooks,fun i mem => ?_,?_⟩,fun ino mem => ?_⟩
    · rcases each i mem with ⟨b,memB,fd,idFd⟩ | ⟨fd,idFd⟩
      · have dated := twins.dated b memB
        rw [fd,idFd] at dated
        exact ⟨fun n isFd => Nat.lt_of_lt_of_le (dated.1 n isFd) sparing.1.ages.next,
          fun n isFd => Nat.lt_of_lt_of_le (dated.2 n isFd) sparing.2.ages.next⟩
      · refine ⟨fun n isFd => ?_,fun n isFd => idNext n (idFd.symm.trans isFd)⟩
        cases fd.symm.trans isFd
        exact next
    · rintro f g ⟨i,mem,open_,openId⟩
      rcases each i mem with ⟨b,memB,fd,idFd⟩ | ⟨fd,idFd⟩
      · rw [← fd] at open_
        rw [← idFd] at openId
        exact stayedAlike twins sparing (slotStayed twins.dated sparing.1.ages sparing.2.ages memB open_ openId)
      · rw [fd] at open_
        rw [idFd] at openId
        rw [file f open_,copyAttrs copied openId,attrs,looks.fs.nodes]
        exact (alike entry found).resolve_left dead
    · exact sparing.1.theirs twins.books mem (by simp)

theorem attrsAtCopied {idDir : Slot} {kind : Kind} {m n : Mount Call} {copy : Slot}
    (copied : CopyRan idDir name kind m copy n) (held : Held m.next m n)
    (below : ∀ k, idDir = .fd k → k < m.next) (other : FileName) :
    attrsAt n idDir other = attrsAt m idDir other := by
  cases copied with
  | found quiet _ =>
    have same := dirAtSame (heldSlot held below) quiet.tree
    simp only [attrsAt,foundAt,same,quiet.tree,attrs,quiet.nodes]
  | @made up q c ino v at_ make tree nodes _ =>
    obtain ⟨free,ok,_,made,_⟩ := makeOk make
    obtain ⟨_,_,_,_,there⟩ := dirAtFile at_
    have find : ∀ r, n.vol.tree.find r = if r = q ++ [name] then some ⟨ino,if kind = .dir then .dir else .reg⟩
        else m.vol.tree.find r := fun r => by rw [tree]; exact madeFind make r
    have now := heldDir held ((find q).trans ((if_neg (by simp)).trans there)) at_
    unfold attrsAt
    rw [foundAtPath now,foundAtPath at_,find]
    by_cases same : q ++ [other] = q ++ [name]
    · rw [if_pos same,same,ok.2.1]
      simp [attrs,nodes,made,Volume.setNode]
    · rw [if_neg same]
      cases found : m.vol.tree.find (q ++ [other]) with
      | none => rfl
      | some entry =>
        have apart : entry.ino ≠ ino := free.2 _ (Lib.Tree.foundMem.mp found)
        simp [attrs,nodes,made,Volume.setNode,apart]

theorem liveStays {r} {key : SrcId} (ok : doLookup parent name e d = some (r,d'))
    (live : (slotted d key).Live) : (slotted d' key).Live := by
  unfold slotted at live
  cases there : d.inodes.atKey key with
  | none => simp [there,Inode.Live] at live
  | some b =>
    obtain ⟨mem,rfl⟩ := Arena.atKeyMem there
    simp only [there,Option.map_some,Option.getD_some] at live
    obtain ⟨c,memC,_,key,fd,_⟩ := cellStays ok mem live
    rw [slotted,← key,Arena.memAtKey memC,Option.map_some,Option.getD_some,Inode.Live,fd]
    exact live

theorem lookAlikeStays {r} {other : FileName} {i : Inode} (dated : Dated d)
    (known : d.inode parent = some dir) (fd : i.fd = dir.fd) (idFd : i.idFd = dir.idFd)
    (ok : doLookup parent name e d = some (r,d')) (alike : LookAlike d dir other) : LookAlike d' i other := by
  obtain ⟨below,belowId⟩ := dated dir (inodeMem known)
  have looks := doLookupLooks parent name e d r d' ok
  have same := dirAtSame (heldSlot (lookupHeld ok) below) looks.fs.tree
  have copies : attrsAt d'.id dir.idFd other = attrsAt d.id dir.idFd other := by
    cases lookupGained known ok with
    | nothing _ id => rw [id]
    | pair _ _ copied _ _ _ _ idHeld => exact attrsAtCopied copied idHeld belowId other
  intro entry found
  have before : foundAt d.fs dir.fd other = some entry := by
    simp only [foundAt,fd,same,looks.fs.tree] at found ⊢
    exact found
  rw [idFd,copies,looks.fs.dev,attrs,looks.fs.nodes]
  exact (alike entry before).imp_left (liveStays ok)

end Lookup

section Requests
variable {others : List Ino} {d d' : State} {e : Env Call}

theorem keptSpares {α : Type} {p : Handler α} {a} (kept : Prog.Keeps Kept p)
    (sparing : Prog.Keeps (Sparing others) p) (twins : Twins others d) (ok : p e d = some (a,d')) :
    Spares others d d' :=
  steadySpares twins (keptSlots (kept e d a d' ok)) (sparing e d a d' ok)

theorem sfsLookupSpares {parent : Ref} {name : FileName} (twins : Twins others d)
    (alike : ∀ dir ∈ d.inode parent, LookAlike d dir name) (ok : sfsLookup parent name e d = some ((),d')) :
    Spares others d d' := by
  obtain ⟨r,d1,lookup,said⟩ := bindSome ok
  obtain ⟨dir,_,got,_⟩ := bindSome lookup
  have known := (getInodeSome got).2.1
  have first := lookupSpares twins known (alike dir known) lookup
  have replies : ∃ replies, d' = {d1 with replies := replies} := by
    split at said <;> exact ⟨_,replySome said⟩
  obtain ⟨_,rfl⟩ := replies
  exact first.trans (repliesSpares first.twins _)

theorem readdirSpares {ino : Ref} {stream : List DirEntry} {sofar : List (FileName × EntryParam)}
    (twins : Twins others d) (alike : ∀ dir ∈ d.inode ino, ∀ x ∈ stream, LookAlike d dir x.name)
    (ok : readdirLoop ino stream sofar e d = some ((),d')) : Spares others d d' := by
  induction stream generalizing d sofar with
  | nil =>
    rw [replySome ok]
    exact repliesSpares twins _
  | cons x rest ih =>
    obtain ⟨r,d1,lookup,ok⟩ := bindSome ok
    obtain ⟨dir,_,got,_⟩ := bindSome lookup
    have known := (getInodeSome got).2.1
    have first := lookupSpares twins known (alike dir known x List.mem_cons_self) lookup
    refine first.trans ?_
    cases r with
    | error err =>
      rw [replySome ok]
      exact repliesSpares first.twins _
    | ok entry =>
      simp only at ok
      split at ok
      · refine ih first.twins (fun i now y mem => ?_) ok
        obtain ⟨j,there,fd,idFd⟩ := dirStays known lookup
        cases Option.some.inj (there.symm.trans now)
        exact lookAlikeStays twins.dated known fd idFd lookup
          (alike dir known y (List.mem_cons_of_mem x mem))
      · obtain ⟨_,d2,forgot,said⟩ := bindSome ok
        rw [replySome said]
        have second := steadySpares first.twins (forgetEntrySlots forgot)
          (Durable.forgetEntryBoth entry _ _ _ _ forgot)
        exact second.trans (repliesSpares second.twins _)

theorem unlinkSpares {parent : Ref} {name : FileName} (twins : Twins others d)
    (alike : d.conf.cached = true ∨ ∀ dir ∈ d.inode parent, LookAlike d dir name)
    (ok : sfsUnlink parent name e d = some ((),d')) : Spares others d d' := by
  obtain ⟨dir,_,got,one⟩ := bindSome ok
  obtain ⟨rfl,known,_⟩ := getInodeSome got
  obtain ⟨_,_,now,two⟩ := bindSome one
  cases Option.some.inj now
  have both : ∀ {t}, Twins others t → unlinkBoth dir name e t = some ((),d') → Spares others t d' :=
    fun twins ok => keptSpares (keptNames.unlink dir name) (Durable.bothNames.unlink dir name) twins ok
  split at two
  · exact both twins two
  · rename_i plain
    obtain ⟨r,d1,lookup,three⟩ := bindSome two
    have first := lookupSpares twins known (alike.resolve_left plain dir known) lookup
    cases r with
    | error err =>
      rw [replySome three]
      exact first.trans (repliesSpares first.twins _)
    | ok x =>
      obtain ⟨_,d2,released,ok⟩ := bindSome three
      have second := steadySpares first.twins (releaseUnlinkedSlots released)
        (Durable.releaseUnlinkedBoth x _ _ _ _ released)
      exact first.trans (second.trans (both second.twins ok))

theorem forgetSpares {ino : Ref} {n : Nat} (twins : Twins others d)
    (ok : sfsForget ino n e d = some ((),d')) : Spares others d d' := by
  obtain ⟨_,d1,forgot,said⟩ := bindSome ok
  rw [replySome said]
  have first := steadySpares twins (forgetSlots forgot) (Durable.forgetBoth ino n _ _ _ _ forgot)
  exact first.trans (repliesSpares first.twins _)

theorem forgetMultiSpares {forgets : List (Ref × Nat)} (twins : Twins others d)
    (ok : sfsForgetMulti forgets e d = some ((),d')) : Spares others d d' := by
  obtain ⟨_,d1,forgot,said⟩ := bindSome ok
  rw [replySome said]
  have first := steadySpares twins (forgetAllSlots forgot) (Durable.forgetAllBoth forgets _ _ _ _ forgot)
  exact first.trans (repliesSpares first.twins _)

theorem setAttrAgain {m : Mount Call} {ino : Ino} {name : Bytes} {value : Option Bytes}
    (same : attrs m ino name = value) : Steady (SameBut none) others m (m.setAttr ino name value) := by
  refine volSteady rfl fun other _ _ => funext fun attr => ?_
  have set := setAttrXattr m ino name value other attr
  refine set.trans ?_
  split
  · rename_i here
    rw [here.1,here.2]
    exact same.symm
  · rfl

def Told (d : State) (i : Inode) : Prop :=
  ∀ f ∈ d.fs.file i.fd, attrs d.fs f.entry.ino f3Size = some (digits i.size)

theorem sizeSpares {ino : Ref} {fh : Handle} (twins : Twins others d)
    (told : mayWrite (d.mount fh.side) fh.fd = true → ∀ i ∈ d.inode ino, Told d i)
    (ok : sfsRelease ino fh e d = some ((),d')) : Spares others d d' := by
  refine steadySpares twins (releaseSlots ok) (Durable.releaseBoth (fun i known writes => ?_) ok)
  rcases updateSizeCases i.fd i.size e d.fs with same | ⟨f,file,n,which,same⟩ <;> rw [same]
  · exact refl_of (Steady (SameBut none) others) d.fs
  · have opened := @installSteady _ others (SameBut none) _ d.fs ⟨f.entry,f.dentry,.read⟩
    refine trans_of (Steady (SameBut none) others) ?_ (closeSteady _ e n)
    rcases which with rfl | rfl
    · exact opened
    · exact trans_of (Steady (SameBut none) others) opened (setAttrAgain (told writes i known f file))

end Requests

section Touch
variable {others : List Ino} {m : Mount Call} {slot : Slot} {name : Bytes}

def settable (m : Mount Call) (slot : Slot) : Option Ino := match attrFile m slot with
  | .ok f => some f.entry.ino
  | .error _ => none

def setEffect (value : Bytes) (flag : SetFlag) (old : Option Bytes) : Option (Option Bytes) :=
  if flag = .create ∧ old.isSome then none
  else if flag = .replace ∧ old.isNone then none
  else some (some value)

def removeEffect (old : Option Bytes) : Option (Option Bytes) := old.map fun _ => none

def touched (fault : Option Errno) (m : Mount Call) (slot : Slot) (name : Bytes)
    (effect : Option Bytes → Option (Option Bytes)) : Mount Call :=
  match fault,settable m slot with
  | none,some ino => match effect (attrs m ino name) with
      | some value => m.setAttr ino name value
      | none => m
  | _,_ => m

theorem setxattrTouches (c : Call) (slot : Slot) (name value : Bytes) (flag : SetFlag) (e : Env Call)
    (m : Mount Call) : (setxattrAt c slot name value flag e m).2 =
      touched (e.fault c) m slot name (setEffect value flag) := by
  unfold setxattrAt syscall touched settable
  cases e.fault c with
  | some err => rfl
  | none =>
    simp only [bind,Except.bind]
    cases attrFile m slot with
    | error err => rfl
    | ok f =>
      simp only [setEffect,attrs]
      by_cases there : flag = .create ∧ ((m.vol.nodes f.entry.ino).xattr name).isSome = true
      · rw [if_pos there,if_pos there]
      · rw [if_neg there,if_neg there]
        by_cases missing : flag = .replace ∧ ((m.vol.nodes f.entry.ino).xattr name).isNone = true
        · rw [if_pos missing,if_pos missing]
        · rw [if_neg missing,if_neg missing]

theorem removexattrTouches (c : Call) (slot : Slot) (name : Bytes) (e : Env Call) (m : Mount Call) :
    (removexattrAt c slot name e m).2 = touched (e.fault c) m slot name removeEffect := by
  unfold removexattrAt syscall touched settable
  cases e.fault c with
  | some err => rfl
  | none =>
    simp only [bind,Except.bind]
    cases attrFile m slot with
    | error err => rfl
    | ok f =>
      simp only [removeEffect,attrs]
      cases (m.vol.nodes f.entry.ino).xattr name <;> rfl

theorem touchedSteady (fault : Option Errno) (effect : Option Bytes → Option (Option Bytes)) :
    Steady (SameBut (settable m slot)) others m (touched fault m slot name effect) := by
  unfold touched
  split
  · rename_i ino there
    rw [there]
    split
    · exact setAttrSteady m ino name _
    · exact refl_of (Steady (SameBut (some ino)) others) m
  · exact refl_of (Steady (SameBut (settable m slot)) others) m

def revised (effect : Option Bytes → Option (Option Bytes)) (name : Bytes) (before : Bytes → Option Bytes) :
    Bytes → Option Bytes :=
  fun attr => if attr = name then (effect (before name)).getD (before name) else before attr

theorem touchedAttrs (fault : Option Errno) (effect : Option Bytes → Option (Option Bytes)) (ino : Ino) :
    attrs (touched fault m slot name effect) ino = if fault = none ∧ settable m slot = some ino
      then revised effect name (attrs m ino) else attrs m ino := by
  unfold touched
  split
  · rename_i here there
    by_cases same : here = ino
    · subst same
      rw [if_pos ⟨rfl,there⟩]
      funext attr
      unfold revised
      cases effect (attrs m here name) with
      | none =>
        by_cases isName : attr = name <;> simp [isName]
      | some value => simp [attrs,setAttrXattr]
    · rw [if_neg (by rw [there]; simp [same])]
      split
      · funext attr
        simp [attrs,setAttrXattr,Ne.symm same]
      · rfl
  · rename_i apart
    split
    · rename_i both
      exact absurd both.2 (apart _ both.1)
    · rfl

/- No copy that a call on the inode changes is paired with a file that the call leaves alone,
here or in another process. -/
def Alone (others : List Ino) (d : State) (i : Inode) : Prop :=
  (∀ ino ∈ settable d.fs i.fd, ino ∉ others) ∧
    ∀ x ∈ inodes d, ∀ f ∈ d.fs.file x.fd, ∀ g ∈ d.id.file x.idFd,
      (settable d.fs i.fd = some f.entry.ino ↔ settable d.id i.idFd = some g.entry.ino)

theorem touchedSpares {d d' : State} {i : Inode} {fault idFault : Option Errno}
    {effect : Option Bytes → Option (Option Bytes)} (twins : Twins others d) (slots : Slots d d')
    (fs : d'.fs = touched fault d.fs i.fd name effect) (id : d'.id = touched idFault d.id i.idFd name effect)
    (faults : fault = none ↔ idFault = none) (alone : Alone others d i) : Spares others d d' := by
  have steady := @touchedSteady others d.fs i.fd name fault effect
  have steadyId := @touchedSteady [] d.id i.idFd name idFault effect
  rw [← fs] at steady
  rw [← id] at steadyId
  refine ⟨⟨steady.books twins.books,steadyId.books twins.idBooks,?_,fun f g paired => ?_⟩,fun ino mem => ?_⟩
  · exact slotsDated slots steady.ages.next steadyId.ages.next twins.dated
  · have was := (slotsStayed slots twins.dated steady.ages steadyId.ages paired).was
    obtain ⟨x,here,file,copy⟩ := was
    rw [fs,id,touchedAttrs,touchedAttrs,twins.alike f g ⟨x,here,file,copy⟩]
    simp only [faults,alone.2 x here f file g copy]
  · rw [fs,touchedAttrs,if_neg]
    exact fun both => alone.1 ino both.2 mem

theorem setxattrSpares {d d' : State} {ino : Ref} {value : Bytes} {flag : SetFlag} {e : Env Call}
    (twins : Twins others d)
    (faults : e.fault (.setxattr .fs) = none ↔ e.fault (.setxattr .id) = none)
    (alone : ∀ i ∈ d.inode ino, Alone others d i)
    (ok : sfsSetxattr ino name value flag e d = some ((),d')) : Spares others d d' := by
  have slots := keptSlots (setxattrKept ino name value flag e d () d' ok)
  obtain ⟨i,_,got,rest⟩ := bindSome ok
  obtain ⟨rfl,known,_⟩ := getInodeSome got
  obtain ⟨r,replies,said⟩ := twoSome rest
  obtain ⟨_,rfl⟩ := replyErrSome said
  exact touchedSpares twins slots (setxattrTouches ..) (setxattrTouches ..) faults (alone i known)

theorem removexattrSpares {d d' : State} {ino : Ref} {e : Env Call} (twins : Twins others d)
    (faults : e.fault (.removexattr .fs) = none ↔ e.fault (.removexattr .id) = none)
    (alone : ∀ i ∈ d.inode ino, Alone others d i)
    (ok : sfsRemovexattr ino name e d = some ((),d')) : Spares others d d' := by
  obtain ⟨i,d0,got,rest⟩ := bindSome ok
  obtain ⟨rfl,known,_⟩ := getInodeSome got
  obtain ⟨r,replies,last⟩ := twoSome rest
  have first : Spares others d0 {d0 with
      fs := (removexattrAt (.removexattr .fs) i.fd name e d0.fs).2,
      id := (removexattrAt (.removexattr .id) i.idFd name e d0.id).2, replies := replies} :=
    touchedSpares twins (sameSlots rfl rfl) (removexattrTouches ..) (removexattrTouches ..) faults
      (alone i known)
  refine first.trans (keptSpares ?_ ?_ first.twins last)
  · exact keepsBind (replyFirstKeeps (fun _ => replyKept _) r) fun _ => keepsBind
      (Prog.keepsIte (makeIdFsKept ino) (Prog.keepsPure _)) fun _ => replyKept _
  · exact keepsBind (replyFirstKeeps (fun _ => Durable.replyBoth _) r) fun _ => keepsBind
      (Durable.convertBoth ino name) fun _ => Durable.replyBoth _

end Touch

section Marks
variable {others : List Ino} {e : Env Call} {m m' n : Mount Call}

theorem markSteady (side : Side) (address : Bytes) {fd : Slot} (len : Nat) (e : Env Call) {ino : Ino}
    (only : ∀ f, m.file fd = some f → f.entry.ino = ino) :
    Steady (SameBut (some ino)) others m (f3MarkAsId side address fd len e m).2 := by
  simp only [f3MarkAsId,bind]
  rcases fullFdCases (.mark side .openFd) fd .read e m with ⟨err,same⟩ | ⟨f,known,same⟩
  · rw [same]
    exact refl_of (Steady (SameBut (some ino)) others) m
  · simp only [same,pure]
    cases only f known
    let m1 := m.install ⟨f.entry,f.dentry,.read⟩
    have sets : ∀ (n : Mount Call) name value, Steady (SameBut (some f.entry.ino)) others n
        (n.setAttr f.entry.ino name value) := fun n name value => setAttrSteady n _ name value
    have closed : ∀ n, Steady (SameBut (some f.entry.ino)) others m1 n →
        Steady (SameBut (some f.entry.ino)) others m (close (.fd m.next) e n).2 := fun n steady =>
      trans_of (Steady _ others) (installSteady m _) (trans_of (Steady _ others) steady (closeSteady _ e n))
    have servers := trans_of (Steady _ others) (sets m1 f3Id (some trueText)) (sets _ f3Servers (some address))
    rcases setMarksCases side address fd len e known with
      ⟨_,here⟩ | here | here | ⟨p,_,_,_,here⟩ <;> rw [here]
    · exact closed _ (refl_of (Steady _ others) m1)
    · exact closed _ (sets m1 f3Id _)
    · exact closed _ servers
    · exact closed _ (trans_of (Steady _ others) servers (sets _ f3Filepath _))

theorem setAttrSame {i j : Ino} (same : attrs m i = attrs n j) (name : Bytes) (value : Option Bytes) :
    attrs (m.setAttr i name value) i = attrs (n.setAttr j name value) j := by
  funext attr
  simp only [attrs,setAttrXattr,true_and] at same ⊢
  rw [same]

theorem markSetSame {i j : Ino} (same : attrs m i = attrs n j) (address : Bytes) (path : Option Bytes) :
    attrs (markSet m i address path) i = attrs (markSet n j address path) j := by
  have servers := setAttrSame (setAttrSame same f3Id (some trueText)) f3Servers (some address)
  cases path with
  | none => exact servers
  | some path => exact setAttrSame servers f3Filepath (some path)

def pathAt (m : Mount Call) (dir : Slot) (name : FileName) (rootDirLen : Nat) : Option Bytes :=
  match m.dirAt dir with
  | .ok (_,p) => if (absolute (m.vol.mount ++ (p ++ [name]))).length < 4096
      then some ((absolute (m.vol.mount ++ (p ++ [name]))).drop rootDirLen) else none
  | .error _ => none

structure Created (m m' : Mount Call) (dir : Slot) (name : FileName) (flags : Flags) (fd : Slot) (up : Entry)
    (p : List FileName) (f : File) : Prop where
  entered : Entered m m' dir name up p f.entry
  file : m'.file fd = some f
  dentry : f.dentry = some (up,name)
  access : f.access = flags.access
  kind : f.entry.kind = .reg
  mount : m'.vol.mount = m.vol.mount
  attrs : attrs m' f.entry.ino = attrsAt m dir name
  old : ∀ entry ∈ foundAt m dir name, f.entry = entry
  new : foundAt m dir name = none → f.entry.ino ∉ m.vol.busy

theorem openCreateAccess {c : Call} {dir : Slot} {name : FileName} {flags : Flags} {fd : Slot} {f : File}
    (ok : openCreate c dir name flags e m = (.ok fd,m')) (file : m'.file fd = some f) :
    f.access = flags.access := by
  rcases openCreateCases c dir name flags e m with ⟨err,same⟩ | ⟨up,p,entry,_,_,_,same⟩ | ⟨up,p,v,_,_,same⟩
  · cases same.symm.trans ok
  · cases same.symm.trans ok
    have there := fileInstall (cleared flags m entry) ⟨entry,some (up,name),flags.access⟩
    rw [(clearedFiles flags m entry).2] at there
    cases Option.some.inj (file.symm.trans there)
    rfl
  · cases same.symm.trans ok
    cases Option.some.inj (file.symm.trans (fileInstall _ _))
    rfl

theorem created {c : Call} {dir : Slot} {name : FileName} {flags : Flags} {fd : Slot}
    (ok : openCreate c dir name flags e m = (.ok fd,m')) : ∃ up p f, Created m m' dir name flags fd up p f := by
  obtain ⟨up,p,f,was,now,file,dentry,kind,found,outcome⟩ := openCreateOk ok
  have grows := openCreateGrows c dir name flags e m
  have held := openCreateHeld c dir name flags e m
  rw [ok] at grows held
  have here := @foundAtPath m dir name _ _ was
  refine ⟨up,p,f,⟨was,now,found,grows.dev,held⟩,file,dentry,openCreateAccess ok file,kind,grows.mount,?_,?_,?_⟩
  · unfold attrsAt
    rcases outcome with ⟨there,alike⟩ | ⟨v,made,quiet⟩
    · rw [here,there]
      exact funext fun attr => (alike attr).xattr _
    · obtain ⟨_,addable,_,nodes,_⟩ := makeOk made
      rw [here,addable.2.1,attrs,quiet.nodes]
      simp [nodes,Volume.setNode]
  · intro entry there
    rw [here] at there
    rcases outcome with ⟨old,_⟩ | ⟨v,made,_⟩
    · exact Option.some.inj (old.symm.trans there)
    · obtain ⟨_,addable,_⟩ := makeOk made
      cases addable.2.1.symm.trans there
  · intro missing
    rcases outcome with ⟨old,_⟩ | ⟨v,made,_⟩
    · cases missing.symm.trans (here.trans old)
    · exact (makeOk made).1.1

theorem recordedAt {dir : Slot} {name : FileName} {flags : Flags} {fd : Slot} {up p f} (len : Nat)
    (made : Created m m' dir name flags fd up p f) (tree : n.vol.tree = m'.vol.tree)
    (mount : n.vol.mount = m'.vol.mount) :
    recorded n f len = if flags.access = .path then none else pathAt m dir name len := by
  obtain ⟨_,_,_,isDir,there⟩ := dirAtFile made.entered.now
  have placed : n.filePath f = some (p ++ [name]) := by
    simp only [Mount.filePath,made.dentry,tree,Lib.Tree.pathOfDir there isDir,Option.map_some]
  unfold recorded pathAt
  rw [placed,made.entered.was,made.access,mount,made.mount]
  by_cases isPath : flags.access = .path <;> simp [isPath]

theorem createdSteady {c : Call} {dir : Slot} {name : FileName} {flags : Flags} {fd : Slot} {o : Option Ino}
    (ok : openCreate c dir name flags e m = (.ok fd,m')) : Steady (SameBut o) others m m' := by
  have steady : Steady (SameBut o) others m (openCreate c dir name flags e m).2 :=
    openCreateSteady c dir name flags e m
  rwa [ok] at steady

section Side
variable {dir : Slot} {name : FileName} {flags : Flags} {fd : Slot} {up p f}

theorem markedSteady (side : Side) (address : Bytes) (len : Nat) (e : Env Call)
    (made : Created m m' dir name flags fd up p f) (absent : foundAt m dir name = none)
    (steady : Steady (SameBut (some f.entry.ino)) others m n) (file : n.file fd = some f) :
    Steady (SameBut none) others m (f3MarkAsId side address fd len e n).2 := by
  refine steadyBut (made.new absent) (trans_of (Steady _ others) steady ?_)
  exact markSteady side address len e fun g there => by rw [Option.some.inj (there.symm.trans file)]

theorem markedAttrs {side : Side} (address : Bytes) (len : Nat)
    (made : Created m m' dir name flags fd up p f) (tree : n.vol.tree = m'.vol.tree)
    (mount : n.vol.mount = m'.vol.mount) (file : n.file fd = some f)
    (calm : ∀ call, e.fault (.mark side call) = none) :
    attrs (f3MarkAsId side address fd len e n).2 f.entry.ino = attrs (markSet n f.entry.ino address
      (if flags.access = .path then none else pathAt m dir name len)) f.entry.ino := by
  have marks := marksExact address len file (Or.inr made.kind) calm
  rw [attrs,marks.nodes,recordedAt len made tree mount]

end Side

theorem newSound {caller : Caller} {parent : Ref} {name : FileName} {d u t : State} {dir : Inode}
    (twins : Twins others d) (sparing : Sparing others d u) (known : d.inode parent = some dir)
    (still : u.inode parent = some dir) (asked : f3IsNewId caller parent name e u = some (true,t)) :
    isNewId d.fs dir name = true := by
  have now := newIdSound still asked
  unfold isNewId at now ⊢
  cases file : u.fs.file dir.fd with
  | none =>
    simp only [file,Bool.false_or] at now
    simp [now]
  | some f =>
    obtain ⟨k,isFd⟩ := fdOfFile file
    have below := (twins.dated dir (inodeMem known)).1 k isFd
    rw [isFd] at file now ⊢
    have xattr := sparing.1.own twins.books below file (by simp)
    simp only [file,marked,xattr] at now
    simp only [sparing.1.ages.old below file,marked,now]

theorem lookAlikeEntered {d : State} {dir : Inode} {name : FileName} {up p upId q entry copy}
    (at_ : d.fs.dirAt dir.fd = .ok (up,p)) (found : d.fs.vol.tree.find (p ++ [name]) = some entry)
    (atId : d.id.dirAt dir.idFd = .ok (upId,q)) (foundId : d.id.vol.tree.find (q ++ [name]) = some copy)
    (same : (slotted d (entry.ino,d.fs.vol.dev)).Live ∨ attrs d.fs entry.ino = attrs d.id copy.ino) :
    LookAlike d dir name := by
  intro other there
  rw [foundAtPath at_,found] at there
  cases Option.some.inj there
  rw [attrsAt,foundAtPath atId,foundId]
  exact same

end Marks

section Create
variable {others : List Ino} {d d' : State} {e : Env Call} {parent : Ref} {name : FileName} {dir : Inode}

def Bare (d : State) (dir : Inode) (name : FileName) : Prop := attrsAt d.id dir.idFd name = fun _ => none

def MarksAlike (d : State) (dir : Inode) (name : FileName) (e : Env Call) : Prop :=
  (foundAt d.fs dir.fd name = none ∧ foundAt d.id dir.idFd name = none) ∧
    (∀ side call, e.fault (.mark side call) = none) ∧
    pathAt d.fs dir.fd name d.conf.source.length = pathAt d.id dir.idFd name d.conf.idroot.length

def CreateAlike (d : State) (dir : Inode) (name : FileName) (e : Env Call) : Prop :=
  if isNewId d.fs dir name = true then MarksAlike d dir name e
  else LookAlike d dir name ∧ (foundAt d.fs dir.fd name = none → Bare d dir name)

theorem createAttrs (alike : CreateAlike d dir name e) :
    (∃ entry ∈ foundAt d.fs dir.fd name, (slotted d (entry.ino,d.fs.vol.dev)).Live) ∨
      attrsAt d.fs dir.fd name = attrsAt d.id dir.idFd name := by
  unfold CreateAlike at alike
  split at alike
  · simp [attrsAt,alike.1]
  · cases found : foundAt d.fs dir.fd name with
    | none =>
      refine Or.inr ?_
      rw [alike.2 found]
      simp [attrsAt,found]
    | some entry =>
      refine (alike.1 entry found).imp (fun live => ⟨entry,rfl,live⟩) fun same => ?_
      rw [← same]
      simp [attrsAt,found]

theorem createChosen {flags : Flags} {fd idFd : Slot} {m n : Mount Call} {up p f upId q g fh d1}
    (twins : Twins others d) (known : d.inode parent = some dir) (alike : CreateAlike d dir name e)
    (opened : openCreate (.create .fs) dir.fd name flags e d.fs = (.ok fd,m))
    (openedId : openCreate (.create .id) dir.idFd name flags e d.id = (.ok idFd,n))
    (made : Created d.fs m dir.fd name flags fd up p f)
    (madeId : Created d.id n dir.idFd name flags idFd upId q g)
    (chosen : chooseCopy parent name fd idFd e {d with fs := m, id := n} = some (fh,d1)) :
    Sparing others d d1 ∧ ((slotted d1 (f.entry.ino,d1.fs.vol.dev)).Live ∨
      attrs d1.fs f.entry.ino = attrs d1.id g.entry.ino) := by
  let u : State := {d with fs := m, id := n}
  have atU : u.inode parent = some dir := by cases parent <;> exact known
  have sparing : Sparing others d u := ⟨createdSteady opened,createdSteady openedId⟩
  obtain ⟨b,t,asked,outcome⟩ := chooseSome chosen
  obtain ⟨_,same,_,rfl⟩ := f3IsNewIdSome asked
  cases Option.some.inj (atU.symm.trans same)
  have quiet := f3IsIdQuiet .handler dir.fd e m
  have still : attrs (f3IsId .handler dir.fd e m).2 f.entry.ino = attrsAt d.fs dir.fd name := by
    rw [attrs,quiet.nodes]
    exact made.attrs
  rcases outcome with ⟨rfl,rfl⟩ | ⟨rfl,both⟩
  · refine ⟨trans_of (Sparing others) sparing (Durable.isNewBoth _ _ _ e u _ _ asked),?_⟩
    refine (createAttrs alike).imp ?_ fun same => still.trans (same.trans madeId.attrs.symm)
    rintro ⟨entry,there,live⟩
    rw [made.old entry there,show (u.setMount .fs _).fs.vol.dev = d.fs.vol.dev from
      quiet.dev.trans made.entered.dev]
    exact live
  · have new := newSound twins sparing known atU asked
    rw [CreateAlike,if_pos new] at alike
    obtain ⟨⟨absent,absentId⟩,calm,paths⟩ := alike
    have file := heldFile (f3IsIdHeld .handler dir.fd e m) made.file
    have asks : Steady (SameBut (some f.entry.ino)) others m (f3IsId .handler dir.fd e m).2 :=
      Durable.isIdDurable .handler dir.fd e m
    have before : attrs (f3IsId .handler dir.fd e m).2 f.entry.ino = attrs n g.entry.ino := by
      refine still.trans (Eq.trans ?_ madeId.attrs.symm)
      simp [attrsAt,absent,absentId]
    rw [both.fs,both.id]
    refine ⟨⟨?_,?_⟩,Or.inr ?_⟩
    · rw [both.fs]
      exact trans_of (Steady _ others) (markedSteady .fs d.conf.address d.conf.source.length e made absent
        (trans_of (Steady _ others) (createdSteady opened) asks) file) (closeSteady fd e _)
    · rw [both.id]
      exact markedSteady .id d.conf.address d.conf.idroot.length e madeId absentId (createdSteady openedId)
        madeId.file
    · rw [attrs,(closeQuiet fd e _).nodes]
      refine (markedAttrs d.conf.address d.conf.source.length made quiet.tree quiet.mount file
        (calm .fs)).trans ?_
      rw [paths]
      exact (markSetSame before d.conf.address _).trans
        (markedAttrs d.conf.address d.conf.idroot.length madeId rfl rfl madeId.file (calm .id)).symm

theorem createSpares {flags : Flags} (twins : Twins others d)
    (alike : ∀ dir ∈ d.inode parent, CreateAlike d dir name e)
    (ok : sfsCreate parent name flags e d = some ((),d')) : Spares others d d' := by
  obtain ⟨dir,known,ran⟩ := createSome ok
  cases ran with
  | noFs same =>
    rw [same]
    exact repliesSpares twins _
  | noId opened _ same =>
    rw [same]
    exact steadySpares twins (sameSlots rfl rfl) ⟨createdSteady opened,refl_of (Steady _ []) d.id⟩
  | @chosen fd m idFd n fh d1 r d2 opened openedId chosen lookup finish =>
    obtain ⟨up,p,f,made⟩ := created opened
    obtain ⟨upId,q,g,madeId⟩ := created openedId
    obtain ⟨sparing,same⟩ := createChosen twins known (alike dir known) opened openedId made madeId chosen
    have first := steadySpares twins (trans_of Slots (b := {d with fs := m, id := n}) (sameSlots rfl rfl)
      (chooseSlots chosen)) sparing
    obtain ⟨rfl,_⟩ := createEntered opened
    have around := @chooseAround _ d.id.next _ _ _ _ (Nat.le_refl d.fs.next) e _ _ _ chosen
    have still : d1.inode parent = some dir := by
      rw [aroundInode around]
      cases parent <;> exact known
    obtain ⟨at_,found⟩ := made.entered.still (around.held made.entered.held.next) around.tree
    obtain ⟨atId,foundId⟩ := madeId.entered.still (around.heldId madeId.entered.held.next) around.idTree
    have second := lookupSpares first.twins still (lookAlikeEntered at_ found atId foundId same) lookup
    refine first.trans (second.trans ?_)
    cases r with
    | error err =>
      rw [replySome finish]
      exact repliesSpares second.twins _
    | ok x =>
      have kept := replyCreateKept x fh e d2 () d' finish
      obtain ⟨fs,id,_⟩ := replyCreateSome finish
      exact steadySpares second.twins (keptSlots kept) (Durable.sameBoth fs id)

end Create

section Mknod
variable {others : List Ino} {d d' : State} {e : Env Call} {parent : Ref} {name : FileName} {dir : Inode}

def MknodAlike (d : State) (dir : Inode) (name : FileName) (e : Env Call) : Kind → Prop
  | .dir => isNewId d.fs dir name = true →
      ∀ side, e.fault (.mknodOpen side) = none ∧ ∀ call, e.fault (.mark side call) = none
  | .lnk => True
  | _ => Bare d dir name

theorem madeAttrs {c : Call} {slot : Slot} {kind : Kind} {content : Bytes} {m m' : Mount Call}
    (ok : makeAt c slot name kind content e m = (.ok (),m')) :
    attrs m' (e.ino c) = (fun _ => none) ∧ e.ino c ∉ m.vol.busy := by
  obtain ⟨up,p,v,_,made,rfl⟩ := makeAtOk ok
  obtain ⟨free,_,_,nodes,_⟩ := makeOk made
  refine ⟨?_,free.1⟩
  simp [attrs,nodes,Volume.setNode]

theorem makeAtSteady {c : Call} {slot : Slot} {kind : Kind} {content : Bytes} {m m' : Mount Call}
    {o : Option Ino} (ok : makeAt c slot name kind content e m = (.ok (),m')) :
    Steady (SameBut o) others m m' := by
  obtain ⟨up,p,v,_,made,rfl⟩ := makeAtOk ok
  exact madeSteady made

structure Stamped (others : List Ino) (ino : Ino) (address : Bytes) (m m' : Mount Call) : Prop where
  steady : Steady (SameBut (some ino)) others m m'
  attrs : attrs m' ino = attrs (markSet m ino address none) ino

theorem markDirStamped {side : Side} {up p} {entry : Entry} (isDir : entry.kind = .dir)
    (opens : e.fault (.mknodOpen side) = none) (calm : ∀ call, e.fault (.mark side call) = none)
    (at_ : (d.mount side).dirAt (dir.copy side) = .ok (up,p))
    (found : (d.mount side).vol.tree.find (p ++ [name]) = some entry)
    (ok : markDir side dir name e d = some ((),d')) :
    ∃ m, d' = d.setMount side m ∧ Stamped others entry.ino d.conf.address (d.mount side) m := by
  let f : File := ⟨entry,some (up,name),.path⟩
  have opened := openPathFinds opens at_ found
  have ran := markDirRan ok
  simp only [opened,slotOf] at ran
  have known : ((d.mount side).install f).file (.fd (d.mount side).next) = some f := fileInstall _ f
  have marks := marksExact d.conf.address (d.conf.rootDir side).length known (Or.inl isDir) calm
  have nowhere : recorded ((d.mount side).install f) f (d.conf.rootDir side).length = none := by
    unfold recorded
    split <;> simp [f]
  rw [nowhere] at marks
  refine ⟨_,ran,?_,?_⟩
  · have sets := @markSteady others _ side d.conf.address _ (d.conf.rootDir side).length e entry.ino
      fun h there => by rw [← Option.some.inj (known.symm.trans there)]
    exact trans_of (Steady _ others) (installSteady _ f) (trans_of (Steady _ others) sets (closeSteady _ e _))
  · rw [attrs,(closeQuiet _ e _).nodes,marks.nodes]
    exact markSetSame rfl d.conf.address none

theorem markNewRan {u t : State} {r} (ok : markNew parent dir name e u = some (r,t)) : ∃ b v,
    f3IsNewId .handler parent name e u = some (b,v) ∧ (b = false ∧ t = v ∨ b = true ∧ ∃ w,
      markDir .fs dir name e v = some ((),w) ∧ markDir .id dir name e w = some ((),t)) := by
  obtain ⟨b,v,asked,rest⟩ := bindSome ok
  obtain ⟨_,t1,marked,last⟩ := bindSome rest
  cases (pureSome last).2
  refine ⟨b,v,asked,?_⟩
  cases b with
  | false => exact Or.inl ⟨rfl,(pureSome marked).2⟩
  | true =>
    obtain ⟨_,w,first,second⟩ := bindSome marked
    exact Or.inr ⟨rfl,w,first,second⟩

theorem mkdirAlike {link : Bytes} {m n : Mount Call} {d1 : State} {r} (twins : Twins others d)
    (known : d.inode parent = some dir) (alike : MknodAlike d dir name e .dir)
    (made : makeAt (.mknod .fs) dir.fd name .dir link e d.fs = (.ok (),m))
    (madeId : makeAt (.mknod .id) dir.idFd name .dir [] e d.id = (.ok (),n))
    (marked : markNew parent dir name e {d with fs := m, id := n} = some (r,d1)) :
    Sparing others d d1 ∧ attrs d1.fs (e.ino (.mknod .fs)) = attrs d1.id (e.ino (.mknod .id)) := by
  let u : State := {d with fs := m, id := n}
  have atU : u.inode parent = some dir := by cases parent <;> exact known
  have sparing : Sparing others d u := ⟨makeAtSteady made,makeAtSteady madeId⟩
  obtain ⟨empty,new⟩ := madeAttrs made
  obtain ⟨emptyId,newId⟩ := madeAttrs madeId
  obtain ⟨b,v,asked,outcome⟩ := markNewRan marked
  have quiet := f3IsIdQuiet .handler dir.fd e m
  have before : attrs (f3IsId .handler dir.fd e m).2 (e.ino (.mknod .fs)) = attrs n (e.ino (.mknod .id)) := by
    rw [attrs,quiet.nodes]
    exact empty.trans emptyId.symm
  rcases outcome with ⟨rfl,rfl⟩ | ⟨rfl,w,first,second⟩
  · refine ⟨trans_of (Sparing others) sparing (Durable.isNewBoth _ _ _ e u _ _ asked),?_⟩
    obtain ⟨_,same,_,rfl⟩ := f3IsNewIdSome asked
    cases Option.some.inj (atU.symm.trans same)
    exact before
  · have calm := alike (newSound twins sparing known atU asked)
    obtain ⟨_,same,_,rfl⟩ := f3IsNewIdSome asked
    cases Option.some.inj (atU.symm.trans same)
    obtain ⟨up,p,entered⟩ := makeEntered made
    obtain ⟨upId,q,enteredId⟩ := makeEntered madeId
    obtain ⟨at_,found⟩ := entered.still (heldLess entered.held.next (f3IsIdHeld .handler dir.fd e m)) quiet.tree
    let t : State := u.setMount .fs (f3IsId .handler dir.fd e m).2
    obtain ⟨m2,rfl,stamped⟩ := @markDirStamped others t _ e name dir .fs up p ⟨_,.dir⟩ rfl (calm .fs).1
      (calm .fs).2 at_ found first
    obtain ⟨n2,rfl,stampedId⟩ := @markDirStamped [] (t.setMount .fs m2) _ e name dir .id upId q ⟨_,.dir⟩ rfl
      (calm .id).1 (calm .id).2 enteredId.now enteredId.found second
    have asks : Steady (SameBut (some (e.ino (.mknod .fs)))) others m (f3IsId .handler dir.fd e m).2 :=
      Durable.isIdDurable .handler dir.fd e m
    refine ⟨⟨steadyBut new ?_,steadyBut newId ?_⟩,?_⟩
    · exact trans_of (Steady _ others) (makeAtSteady made) (trans_of (Steady _ others) asks stamped.steady)
    · exact trans_of (Steady _ []) (makeAtSteady madeId) stampedId.steady
    · exact stamped.attrs.trans ((markSetSame before d.conf.address none).trans stampedId.attrs.symm)

theorem mknodIdSpares {kind : Kind} {link : Bytes} {m : Mount Call} {r} {d1 : State} (twins : Twins others d)
    (known : d.inode parent = some dir) (alike : MknodAlike d dir name e kind)
    (made : makeAt (.mknod .fs) dir.fd name kind link e d.fs = (.ok (),m))
    (copied : mknodId parent dir name kind link e {d with fs := m} = some (r,d1)) :
    Spares others d d1 ∧ (r = .ok () → d1.inode parent = some dir ∧ LookAlike d1 dir name) := by
  have slots : Slots d d1 := trans_of Slots (b := {d with fs := m}) (sameSlots rfl rfl)
    (keptSlots (mknodIdKept parent dir name kind link e _ _ _ copied))
  have sparing : Sparing others d {d with fs := m} := ⟨makeAtSteady made,refl_of (Steady _ []) d.id⟩
  obtain ⟨up,p,entered⟩ := makeEntered made
  obtain ⟨empty,_⟩ := madeAttrs made
  by_cases two : kind = .dir ∨ kind = .lnk
  · obtain ⟨_,n,madeId,rfl,⟨⟨err,failed⟩,rfl⟩ | ⟨rfl,outcome⟩⟩ := mknodIdSome two copied
    · exact ⟨steadySpares twins slots sparing,fun wrong => by cases failed.symm.trans wrong⟩
    · have pair : Sparing others d d1 ∧ Around d.fs.next d.id.next {d with fs := m, id := n} d1 ∧
          attrs d1.fs (e.ino (.mknod .fs)) = attrs d1.id (e.ino (.mknod .id)) := by
        rcases outcome with ⟨rfl,marked⟩ | ⟨rfl,rfl⟩
        · rw [if_pos rfl] at madeId
          obtain ⟨both,same⟩ := mkdirAlike twins known alike made madeId marked
          exact ⟨both,markNewAround parent dir name e _ _ _ marked,same⟩
        · exact ⟨⟨makeAtSteady made,makeAtSteady madeId⟩,refl_of (Around d.fs.next d.id.next) _,
            empty.trans (madeAttrs madeId).1.symm⟩
      obtain ⟨both,around,same⟩ := pair
      obtain ⟨upId,q,enteredId⟩ := makeEntered madeId
      obtain ⟨at_,found⟩ := entered.still (around.held entered.held.next) around.tree
      obtain ⟨atId,foundId⟩ := enteredId.still (around.heldId enteredId.held.next) around.idTree
      refine ⟨steadySpares twins slots both,fun _ => ⟨?_,lookAlikeEntered at_ found atId foundId (Or.inr same)⟩⟩
      rw [aroundInode around]
      cases parent <;> exact known
  · have plain : d1 = {d with fs := m} ∧ Bare d dir name := by
      cases kind with
      | dir => exact absurd (Or.inl rfl) two
      | lnk => exact absurd (Or.inr rfl) two
      | reg => exact ⟨(pureSome copied).2,alike⟩
      | special => exact ⟨(pureSome copied).2,alike⟩
    obtain ⟨rfl,bare⟩ := plain
    refine ⟨steadySpares twins slots sparing,fun _ => ⟨by cases parent <;> exact known,fun entry found => Or.inr ?_⟩⟩
    cases Option.some.inj (found.symm.trans ((foundAtPath entered.now).trans entered.found))
    exact empty.trans bare.symm

theorem mknodSpares {kind : Kind} {link : Bytes} (twins : Twins others d)
    (alike : ∀ dir ∈ d.inode parent, MknodAlike d dir name e kind)
    (ok : mknodSymlink parent name kind link e d = some ((),d')) : Spares others d d' := by
  obtain ⟨dir,known,ran⟩ := mknodSome ok
  cases ran with
  | noFs same =>
    rw [same]
    exact repliesSpares twins _
  | noId made failed same =>
    have first := (mknodIdSpares twins known (alike dir known) made failed).1
    rw [same]
    exact first.trans (repliesSpares first.twins _)
  | looked made copied lookup same =>
    obtain ⟨first,answers⟩ := mknodIdSpares twins known (alike dir known) made copied
    obtain ⟨still,look⟩ := answers rfl
    have second := lookupSpares first.twins still look lookup
    rw [same]
    exact first.trans (second.trans (repliesSpares second.twins _))

end Mknod

end F3.Driver.Attrs
