import F3.DriverOwners

/-! The two copies of an inode: which files the inodes of the driver have open in both
trees, and how a request comes to a new pair of them. -/
namespace F3.Driver.Copies
open Lib (Bytes Arena Cell Prog Act)
open Lib.Posix
open Fds Owners

def inodes (d : State) : List Inode := d.root :: d.inodes.cells.map Cell.value

def Paired (d : State) (f g : File) : Prop :=
  ∃ i ∈ inodes d, d.fs.file i.fd = some f ∧ d.id.file i.idFd = some g

def Dated (d : State) : Prop := ∀ i ∈ inodes d,
  (∀ n, i.fd = .fd n → n < d.fs.next) ∧ ∀ n, i.idFd = .fd n → n < d.id.next

def Slots (d d' : State) : Prop := ∀ i ∈ inodes d',
  (∃ b ∈ inodes d, b.fd = i.fd ∧ b.idFd = i.idFd) ∨ i.fd = .enoent ∧ i.idFd = .enoent

section Slots
variable {d d' : State}

instance : IsPreorder State Slots where
  refl _ := fun i mem => Or.inl ⟨i,mem,rfl,rfl⟩
  trans _ _ _ one two := by
    intro i mem
    rcases two i mem with ⟨b,memB,fd,idFd⟩ | gone
    · rcases one b memB with ⟨a,memA,fdA,idFdA⟩ | ⟨none,noneId⟩
      · exact Or.inl ⟨a,memA,fdA.trans fd,idFdA.trans idFd⟩
      · exact Or.inr ⟨fd ▸ none,idFd ▸ noneId⟩
    · exact Or.inr gone

theorem tableSlots (root : d'.root.fd = d.root.fd ∧ d'.root.idFd = d.root.idFd)
    (cells : ∀ c ∈ d'.inodes.cells, (∃ b ∈ inodes d, b.fd = c.value.fd ∧ b.idFd = c.value.idFd) ∨
      c.value.fd = .enoent ∧ c.value.idFd = .enoent) : Slots d d' := by
  intro i mem
  rcases List.mem_cons.mp mem with rfl | inTable
  · exact Or.inl ⟨d.root,List.mem_cons_self,root.1.symm,root.2.symm⟩
  · obtain ⟨c,there,rfl⟩ := List.mem_map.mp inTable
    exact cells c there

theorem cellInode {c : Cell SrcId Inode} (mem : c ∈ d.inodes.cells) : c.value ∈ inodes d :=
  List.mem_cons_of_mem _ (List.mem_map.mpr ⟨c,mem,rfl⟩)

theorem inodeMem {ref : Ref} {i : Inode} (known : d.inode ref = some i) : i ∈ inodes d := by
  cases ref with
  | root =>
    cases Option.some.inj known
    exact List.mem_cons_self
  | node a =>
    obtain ⟨c,here,rfl⟩ := Option.map_eq_some_iff.mp known
    exact cellInode (Arena.atAddrMem here).1

theorem shapeSlots (root : d'.root.fd = d.root.fd ∧ d'.root.idFd = d.root.idFd)
    (cells : shape d' = shape d) : Slots d d' := by
  refine tableSlots root fun c mem => Or.inl ?_
  have here : shapeOf c ∈ shape d := cells ▸ List.mem_map.mpr ⟨c,mem,rfl⟩
  obtain ⟨b,old,same⟩ := List.mem_map.mp here
  exact ⟨b.value,cellInode old,congrArg Shape.fd same,congrArg Shape.idFd same⟩

theorem keptSlots (kept : Kept d d') : Slots d d' := shapeSlots kept.root kept.cells

theorem sameSlots (root : d'.root = d.root) (table : d'.inodes = d.inodes) : Slots d d' :=
  tableSlots ⟨by rw [root],by rw [root]⟩ fun c mem => Or.inl ⟨c.value,cellInode (table ▸ mem),rfl,rfl⟩

theorem slotsDated (slots : Slots d d') (fs : d.fs.next ≤ d'.fs.next) (id : d.id.next ≤ d'.id.next)
    (dated : Dated d) : Dated d' := by
  intro i mem
  rcases slots i mem with ⟨b,memB,fd,idFd⟩ | ⟨none,noneId⟩
  · refine ⟨fun n isFd => ?_,fun n isFd => ?_⟩
    · exact Nat.lt_of_lt_of_le ((dated b memB).1 n (fd.trans isFd)) fs
    · exact Nat.lt_of_lt_of_le ((dated b memB).2 n (idFd.trans isFd)) id
  · refine ⟨fun n isFd => ?_,fun n isFd => ?_⟩
    · cases none.symm.trans isFd
    · cases noneId.symm.trans isFd

structure Stayed (d d' : State) (f g : File) : Prop where
  was : Paired d f g
  fs : ∃ n < d.fs.next, d'.fs.file (.fd n) = some f
  id : ∃ n < d.id.next, d'.id.file (.fd n) = some g

theorem slotStayed (dated : Dated d) (fs : Ages d.fs d'.fs) (id : Ages d.id d'.id) {b : Inode} {f g : File}
    (mem : b ∈ inodes d) (file : d'.fs.file b.fd = some f) (copy : d'.id.file b.idFd = some g) :
    Stayed d d' f g := by
  obtain ⟨n,isFd⟩ := fdOfFile file
  obtain ⟨k,isIdFd⟩ := fdOfFile copy
  have below := (dated b mem).1 n isFd
  have belowId := (dated b mem).2 k isIdFd
  rw [isFd] at file
  rw [isIdFd] at copy
  refine ⟨⟨b,mem,?_,?_⟩,⟨n,below,file⟩,⟨k,belowId,copy⟩⟩
  · rw [isFd]
    exact fs.old below file
  · rw [isIdFd]
    exact id.old belowId copy

theorem slotsStayed (slots : Slots d d') (dated : Dated d) (fs : Ages d.fs d'.fs) (id : Ages d.id d'.id)
    {f g : File} (paired : Paired d' f g) : Stayed d d' f g := by
  obtain ⟨i,mem,file,copy⟩ := paired
  rcases slots i mem with ⟨b,memB,fd,idFd⟩ | ⟨none,_⟩
  · rw [← fd] at file
    rw [← idFd] at copy
    exact slotStayed dated fs id memB file copy
  · rw [none] at file
    cases file

end Slots

section Requests
variable {e : Env Call} {d d' : State}

theorem mountSlots (d : State) (side : Side) (m : Mount Call) : Slots d (d.setMount side m) := by
  cases side <;> exact sameSlots rfl rfl

theorem openSlots {ino : Ref} {flags : Flags} (fresh : d.replies = [])
    (ok : sfsOpen ino flags e d = some ((),d')) : Slots d d' := by
  rcases openRan fresh ok with ⟨kept,_⟩ | ⟨t,side,k,f,m,before,_,after,_⟩
  · exact keptSlots kept
  · exact trans_of Slots (keptSlots before) (trans_of Slots (mountSlots t side m) (keptSlots after))

theorem releaseSlots {ino : Ref} {fh : Handle} (ok : sfsRelease ino fh e d = some ((),d')) : Slots d d' := by
  obtain ⟨t,before,after⟩ := releaseRan ok
  exact trans_of Slots (keptSlots before) (trans_of Slots (mountSlots t fh.side _) (keptSlots after))

theorem forgetSlots {ino : Ref} {n : Nat} (ok : forgetOne ino n e d = some ((),d')) : Slots d d' := by
  obtain ⟨i,t,_,_,kept,⟨_,rfl⟩ | ⟨_,erased⟩⟩ := forgetRan ok
  · exact keptSlots kept
  · refine trans_of Slots (keptSlots kept) ?_
    rcases eraseRan erased with ⟨_,rfl⟩ | ⟨c,_,rfl⟩
    · exact refl_of Slots _
    · exact tableSlots ⟨rfl,rfl⟩ fun b mem =>
        Or.inl ⟨b.value,cellInode (List.mem_filter.mp mem).1,rfl,rfl⟩

theorem forgetAllSlots {forgets : List (Ref × Nat)} (ok : forgetAll forgets e d = some ((),d')) :
    Slots d d' := by
  induction forgets generalizing d with
  | nil =>
    rw [(Prog.pureSome ok).2]
    exact refl_of Slots d
  | cons x rest ih =>
    obtain ⟨_,d1,one,more⟩ := Prog.bindSome ok
    exact trans_of Slots (forgetSlots one) (ih more)

theorem forgetEntrySlots {x : EntryParam} (ok : forgetEntry x e d = some ((),d')) : Slots d d' := by
  unfold forgetEntry at ok
  cases ino : x.ino with
  | none => simp [ino,Prog.abort] at ok
  | some a =>
    simp only [ino] at ok
    exact forgetSlots ok

theorem releaseUnlinkedSlots {x : EntryParam} (ok : releaseUnlinked x e d = some ((),d')) : Slots d d' := by
  rcases releaseUnlinkedRan ok with rfl | ⟨a,c,_,_,rfl⟩
  · exact refl_of Slots d'
  · refine tableSlots ⟨rfl,rfl⟩ (Arena.allModify (fun b old _ => Or.inl ⟨b.value,cellInode old,rfl,rfl⟩) ?_)
    exact fun b _ _ => Or.inr ⟨rfl,rfl⟩

theorem chooseSlots {parent : Ref} {name : FileName} {fd idFd : Slot} {fh : Handle}
    (ok : chooseCopy parent name fd idFd e d = some (fh,d')) : Slots d d' := by
  obtain ⟨_,_,_,⟨_,_,t,kept,rfl⟩ | ⟨_,_,kept⟩⟩ := chooseRan ok
  · exact trans_of Slots (keptSlots kept) (mountSlots t .fs _)
  · exact keptSlots kept

end Requests

inductive CopyRan (idDir : Slot) (name : FileName) (kind : Kind) (m : Mount Call) (copy : Slot)
    (n : Mount Call) : Prop where
  | found (quiet : Quiet m n) (entry : ∀ g, n.file copy = some g → foundAt m idDir name = some g.entry)
  | made {up q c ino v} (at_ : m.dirAt idDir = .ok (up,q))
      (make : m.vol.make c ino (if kind = .dir then .dir else .reg) [] q name = .ok v)
      (tree : n.vol.tree = v.tree) (nodes : n.vol.nodes = v.nodes)
      (entry : ∀ g, n.file copy = some g → g.entry = ⟨ino,if kind = .dir then .dir else .reg⟩)

section Copy
variable {e : Env Call} {m : Mount Call} {idDir : Slot} {name : FileName}

theorem openedEntry {c : Call} {g : File} (file : (openPath c idDir name e m).2.file
    (slotOf (openPath c idDir name e m).1) = some g) : foundAt m idDir name = some g.entry := by
  rcases openPathCases c idDir name e m with ⟨err,same⟩ | ⟨up,p,entry,at_,there,same⟩
  · rw [same] at file
    cases file
  · rw [same,slotOf,fileInstall] at file
    cases Option.some.inj file
    exact (foundAtPath at_).trans there

theorem foundAtQuiet {n : Mount Call} {x} (quiet : Quiet m n) (found : foundAt n idDir name = some x)
    {y} (at_ : m.dirAt idDir = .ok y) : foundAt m idDir name = some x := by
  unfold foundAt at found ⊢
  cases now : n.dirAt idDir with
  | error err => simp [now] at found
  | ok z =>
    rw [now] at found
    rw [at_,← dirAtGrows quiet.grows at_ now,← quiet.tree]
    exact found

theorem foundAtMade {n : Mount Call} {up q c ino kind v x} (at_ : m.dirAt idDir = .ok (up,q))
    (make : m.vol.make c ino kind [] q name = .ok v) (grows : Grows m n) (tree : n.vol.tree = v.tree)
    (found : foundAt n idDir name = some x) : x = ⟨ino,kind⟩ := by
  unfold foundAt at found
  cases now : n.dirAt idDir with
  | error err => simp [now] at found
  | ok z =>
    rw [now,dirAtGrows grows at_ now,tree] at found
    exact Option.some.inj (found.symm.trans ((madeFind make _).trans (if_pos rfl)))

theorem openIdCopyRan (idDir : Slot) (name : FileName) (kind : Kind) (e : Env Call) (m : Mount Call) :
    CopyRan idDir name kind m (openIdCopy idDir name kind e m).1.1 (openIdCopy idDir name kind e m).2 := by
  have reopens : ∀ n : Mount Call, Quiet n (openPath .lookupReopen idDir name e n).2 :=
    fun n => openPathQuiet _ _ _ e n
  simp only [openIdCopy,bind]
  rcases openPathCases .lookupOpenId idDir name e m with ⟨err,same⟩ | ⟨up,p,entry,at_,there,same⟩
  · rw [same]
    by_cases missing : err = .enoent
    · subst missing
      simp only [makeIdCopy]
      split
      · rename_i isDir
        simp only [bind]
        rcases makeAtCases .lookupMkdir idDir name .dir [] e m with ⟨err,failed⟩ | ⟨up,q,v,at_,made,done⟩
        · rw [failed]
          exact .found (reopens m) fun g file => openedEntry file
        · rw [done]
          have tree := (reopens {m with vol := v}).tree
          have nodes := (reopens {m with vol := v}).nodes
          have make : m.vol.make .lookupMkdir (e.ino .lookupMkdir) (if kind = .dir then .dir else .reg) [] q
              name = .ok v := by rw [if_pos isDir]; exact made
          refine .made at_ make tree nodes fun g file => ?_
          exact foundAtMade at_ make (makeGrows made) rfl (openedEntry file)
      · rename_i file
        simp only [bind]
        rcases openCreateCases .lookupCreate idDir name ⟨.read,false,false⟩ e m with
          ⟨err,failed⟩ | ⟨up,q,entry,at_,there,_,done⟩ | ⟨up,q,v,at_,made,done⟩
        · rw [failed]
          exact .found (reopens m) fun g file => openedEntry file
        · rw [done]
          have quiet : Quiet m (close (.fd m.next) e
              ((cleared ⟨.read,false,false⟩ m entry).install ⟨entry,some (up,name),.read⟩)).2 := by
            refine trans_of Quiet ?_ (closeQuiet _ e _)
            simpa [cleared] using installQuiet m _
          exact .found (trans_of Quiet quiet (reopens _)) fun g file =>
            foundAtQuiet quiet (openedEntry file) at_
        · rw [done]
          have closes := closeQuiet (.fd m.next) e
            (Mount.install {m with vol := v} ⟨⟨e.ino .lookupCreate,.reg⟩,some (up,name),.read⟩)
          have make : m.vol.make .lookupCreate (e.ino .lookupCreate) (if kind = .dir then .dir else .reg) [] q
              name = .ok v := by rw [if_neg file]; exact made
          have grows : Grows m (close (.fd m.next) e
              (Mount.install {m with vol := v} ⟨⟨e.ino .lookupCreate,.reg⟩,some (up,name),.read⟩)).2 :=
            trans_of Grows (makeGrows made) (trans_of Grows (installQuiet _ _).grows closes.grows)
          refine .made at_ make ((reopens _).tree.trans closes.tree) ((reopens _).nodes.trans closes.nodes)
            fun g file => ?_
          exact foundAtMade at_ make grows closes.tree (openedEntry file)
    · have other : makeIdCopy idDir name kind (.error err) = pure (.closed,false) := by
        cases err <;> first | rfl | exact absurd rfl missing
      rw [other]
      exact .found (refl_of Quiet m) fun g file => by cases file
  · rw [same]
    refine .found (installQuiet m _) fun g file => ?_
    have isEntry : (m.install ⟨entry,some (up,name),.path⟩).file (.fd m.next) = some g := file
    rw [fileInstall] at isEntry
    cases Option.some.inj isEntry
    exact (foundAtPath at_).trans there

end Copy

inductive Gained (name : FileName) (e : Env Call) (d : State) (dir : Inode) (d' : State) : Prop where
  | nothing (slots : Slots d d') (id : d'.id = d.id)
  | pair {entry copy} (found : foundAt d.fs dir.fd name = some entry)
      (dead : ¬ (slotted d (entry.ino,d.fs.vol.dev)).Live)
      (copied : CopyRan dir.idFd name entry.kind d.id copy d'.id)
      (each : ∀ i ∈ inodes d', (∃ b ∈ inodes d, b.fd = i.fd ∧ b.idFd = i.idFd) ∨
        i.fd = .fd d.fs.next ∧ i.idFd = copy)
      (file : ∀ f, d'.fs.file (.fd d.fs.next) = some f → f.entry = entry)
      (next : d.fs.next < d'.fs.next) (idNext : ∀ n, copy = .fd n → n < d'.id.next)
      (idHeld : Held d.id.next d.id d'.id)

theorem lookupGained {parent : Ref} {name : FileName} {e : Env Call} {d d' : State} {dir r}
    (known : d.inode parent = some dir) (ok : doLookup parent name e d = some (r,d')) :
    Gained name e d dir d' := by
  have root := (doLookupLooks parent name e d r d' ok).root
  have sameRoot : d'.root.fd = d.root.fd ∧ d'.root.idFd = d.root.idFd := ⟨by rw [root],by rw [root]⟩
  cases lookupBooked known ok with
  | missed _ table _ id => exact .nothing (sameSlots root table) id
  | refused _ table _ id => exact .nothing (sameSlots root table) id
  | counted _ cells _ _ id => exact .nothing (shapeSlots sameRoot cells) id
  | @filled attr c copy found key _ entry fs copied id =>
    have next := lookupNext known ok found
    obtain ⟨up,p,file,at_,there,_,rfl,_⟩ := resolved found
    have here : foundAt d.fs dir.fd name = some file := (foundAtPath at_).trans there
    have isKey : c.key = (file.ino,d.fs.vol.dev) := key
    have value : slotted d (file.ino,d.fs.vol.dev) = c.value := isKey ▸ slottedCell entry.old
    have ran := openIdCopyRan dir.idFd name file.kind e d.id
    have kind : (d.fs.vol.stat file).kind = file.kind := rfl
    rw [kind] at copied
    rw [← copied.1,← copied.2] at ran
    refine .pair here (value ▸ entry.dead) ran ?_ ?_ next ?_ (yieldsHeld id)
    · intro i mem
      rcases List.mem_cons.mp mem with rfl | inTable
      · exact Or.inl ⟨d.root,List.mem_cons_self,sameRoot.1.symm,sameRoot.2.symm⟩
      · obtain ⟨b,memB,rfl⟩ := List.mem_map.mp inTable
        rcases entry.cells b memB with old | ⟨_,_,fd,idFd⟩
        · exact Or.inl ⟨b.value,cellInode old,rfl,rfl⟩
        · exact Or.inr ⟨fd,idFd⟩
    · exact fun f isFile => filledFile here fs isFile
    · intro n isFd
      rcases id with ⟨closed,_⟩ | ⟨isCopy,opened⟩
      · cases closed.symm.trans isFd
      · cases isCopy.symm.trans isFd
        exact opened.next

end F3.Driver.Copies
