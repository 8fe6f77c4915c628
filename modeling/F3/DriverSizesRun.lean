import F3.DriverSizes

/-! The size that a release publishes, over whole runs of the producer and its consumers. -/
namespace F3.Driver.Sizes
open Lib (Bytes Arena Cell Prog Tree)
open Lib.Posix
open Lib.Run (run Meets)
open Choice (Cluster Event)
open Handles

def vacant (m : Mount Call) (dir : Slot) (name : FileName) : Prop := match m.dirAt dir with
  | .ok (_,p) => m.vol.tree.find (p ++ [name]) = none
  | .error _ => False

instance (m dir name) : Decidable (vacant m dir name) := by
  unfold vacant
  rcases m.dirAt dir with _ | ⟨_,p⟩ <;> infer_instance

structure MakesCopy (y : Ino) (d : State) (dir : Inode) (name : FileName) (e : Env Call) : Prop where
  isNew : isNewId d.fs dir name = true
  tests : Tests e
  quiet : e.fault (.create .id) = none
  vacant : vacant d.id dir.idFd name
  free : d.id.vol.Free (e.ino (.create .id))
  number : e.ino (.create .id) = y

/- The file is made once, by the producer, as an ID file with a new copy; no other file is
given this copy. -/
structure CreateFits (x y : Ino) (n : Nat) (d : State) (dir : Inode) (name : FileName) (e : Env Call) :
    Prop where
  makes : createdIno (.create .fs) d.fs dir.fd name e = some x →
    n = 0 ∧ vacant d.fs dir.fd name ∧ MakesCopy y d dir name e
  copies : n = 0 → createdIno (.create .id) d.id dir.idFd name e = some y →
    createdIno (.create .fs) d.fs dir.fd name e = some x

section Create
variable {x y : Ino} {s : Session} {n : Nat} {d d' : State} {c : Call} {m m' : Mount Call} {dir : Slot}
  {name : FileName} {e : Env Call} {up p entry}

theorem createdEntry (entered : Entered m m' dir name up p entry)
    (new : NewEntry c e m m' (p ++ [name]) entry) : createdIno c m dir name e = some entry.ino := by
  cases new with
  | made absent _ isNew _ _ => simp [createdIno,entered.was,absent,isNew]
  | found there _ => simp [createdIno,entered.was,there]

theorem vacantMade (entered : Entered m m' dir name up p entry)
    (new : NewEntry c e m m' (p ++ [name]) entry) (free : vacant m dir name) :
    m.vol.Free entry.ino ∧ entry.ino = e.ino c ∧ (m'.vol.nodes entry.ino).content = [] := by
  simp only [vacant,entered.was] at free
  cases new with
  | made _ unused isNew empty _ => exact ⟨by rw [isNew]; exact unused,by rw [isNew],empty⟩
  | found there _ => cases free.symm.trans there

theorem freeUnlinked {v : Volume Call} {ino : Ino} (free : v.Free ino) : ¬ Linked v ino := by
  rintro ⟨entry,mem,number⟩
  exact free.2 entry mem number

theorem makesOpens {dir : Inode} {flags : Flags} {err m'} (makes : MakesCopy y d dir name e)
    (failed : openCreate (.create .id) dir.idFd name flags e d.id = (.error err,m')) : False := by
  have free := makes.vacant
  unfold Sizes.vacant at free
  split at free
  · rename_i at_
    obtain ⟨_,_,opened⟩ := @openCreateMakes _ _ _ _ flags _ _ _ _ makes.quiet at_ free makes.free
    cases opened.symm.trans failed
  · exact free

structure Born (x y : Ino) (n : Nat) (d : State) (dir : Inode) (name : FileName) (e : Env Call) (k : Mount Call)
    (entry copy : Entry) : Prop where
  copies : n = 0 → copy.ino = y → entry.ino = x
  makes : entry.ino = x → n = 0 ∧ d.fs.vol.Free x ∧ copy.ino = y ∧ (k.vol.nodes copy.ino).content = [] ∧
    MakesCopy y d dir name e

theorem createBorn {dir : Inode} {k : Mount Call} {idUp q copy} (fit : CreateFits x y n d dir name e)
    (entered : Entered d.fs m dir.fd name up p entry)
    (new : NewEntry (.create .fs) e d.fs m (p ++ [name]) entry)
    (enteredId : Entered d.id k dir.idFd name idUp q copy)
    (newId : NewEntry (.create .id) e d.id k (q ++ [name]) copy) : Born x y n d dir name e k entry copy := by
  have number := createdEntry entered new
  refine ⟨fun zero isY => ?_,fun isX => ?_⟩
  · exact Option.some.inj (number.symm.trans (fit.copies zero (isY ▸ createdEntry enteredId newId)))
  · obtain ⟨zero,free,made⟩ := fit.makes (isX ▸ number)
    obtain ⟨_,isY,empty⟩ := vacantMade enteredId newId made.vacant
    exact ⟨zero,isX ▸ (vacantMade entered new free).1,isY.trans made.number,empty,made⟩

theorem bornBytes {dir : Inode} {k : Mount Call} {q : List FileName} {copy} (inv : Inv x y s)
    (node : s.cluster.nodes[n]? = some d) (born : Born x y n (asked s.cluster d) dir name e k entry copy)
    (newId : NewEntry (.create .id) e (asked s.cluster d).id k (q ++ [name]) copy)
    (grows : Grows (asked s.cluster d).id k) (spares : Spares k d'.id) (linked : Linked s.cluster.shared x) :
    copyBytes (moved s.cluster n d') y = copyBytes s.cluster y := by
  refine bytesSame node fun zero => ?_
  have other : y ≠ copy.ino := by
    intro isY
    obtain ⟨_,free,_⟩ := born.makes (born.copies zero isY.symm)
    exact freeUnlinked free linked
  subst zero
  obtain ⟨d0,at0,has⟩ := inv.producer
  cases at0.symm.trans node
  obtain ⟨q',there,found,isY⟩ := linkedFind.mp (has linked)
  have content := spares.content (grows.kept found)
  rw [isY] at content
  rw [content]
  cases newId with
  | made _ _ _ _ others => exact others other
  | found _ others => exact others other

theorem chosenInv {parent : Ref} {flags : Flags} {dir : Inode} {fd idFd k fh d1 r d2} (inv : Inv x y s)
    (node : s.cluster.nodes[n]? = some d) (fit : CreateFits x y n (asked s.cluster d) dir name e)
    (steady : Steady (asked s.cluster d) d') (after : Seated d')
    (known : (asked s.cluster d).inode parent = some dir)
    (opened : openCreate (.create .fs) dir.fd name flags e (asked s.cluster d).fs = (.ok fd,m))
    (openedId : openCreate (.create .id) dir.idFd name flags e (asked s.cluster d).id = (.ok idFd,k))
    (chosen : chooseCopy parent name fd idFd e {asked s.cluster d with fs := m, id := k} = some (fh,d1))
    (lookup : doLookup parent name e d1 = some (r,d2)) (finish : finishCreate fh r e d2 = some ((),d')) :
    Inv x y ⟨moved s.cluster n d',d'.replies.filterMap (gripOf n (.create parent name flags)) ++ s.grips⟩ := by
  have seated := askedSeated (inv.seated d (List.mem_of_getElem? node))
  obtain ⟨isFd,up,p,entry,_,entered,file,new,names⟩ := createMade opened
  obtain ⟨isIdFd,idUp,q,idEntry,_,enteredId,fileId,newId,_⟩ := createMade openedId
  have grows := openCreateGrows (.create .fs) dir.fd name flags e (asked s.cluster d).fs
  have growsId := openCreateGrows (.create .id) dir.idFd name flags e (asked s.cluster d).id
  rw [opened] at grows
  rw [openedId] at growsId
  obtain ⟨around,_⟩ := createChose opened openedId chosen
  obtain ⟨tree,spares⟩ := createEnds chosen around lookup finish
  have born := createBorn fit entered new enteredId newId
  have bytes : ∀ grip ∈ s.grips, writing s x grip → Linked s.cluster.shared x →
      copyBytes (moved s.cluster n d') y = copyBytes s.cluster y :=
    fun _ _ _ linked => bornBytes inv node born newId growsId spares linked
  have move : Moved x y s.cluster n d' := by
    refine movedLinked inv node after (fun found => ?_) (fun linked => ?_)
      fun found => spares.kept (growsId.kept found)
    · rw [tree]
      exact grows.kept found
    · obtain ⟨q',there,found,isX⟩ := linkedFind.mp (linkedSame tree linked)
      rcases names found with old | rfl
      · exact .inl (linkedFind.mpr ⟨q',there,old,isX⟩)
      · obtain ⟨zero,_,isY,_⟩ := born.makes isX
        exact .inr ⟨zero,linkedFind.mpr ⟨_,idEntry,spares.kept enteredId.found,isY⟩⟩
  rcases createGrip rfl known entered chosen around lookup finish with none |
    ⟨x',a,cell,replies,isA,here,live,isKey,fresh⟩
  · exact invSilent inv node move steady (handlessGrips none n _) bytes
  · obtain ⟨newFd,g,held,copy⟩ := createHandle file fileId isFd isIdFd chosen lookup finish
    have isFh : fh = ⟨fh.side,.fd ((asked s.cluster d).mount fh.side).next⟩ := by rw [← newFd]
    have gives : d'.replies.filterMap (gripOf n (.create parent name flags)) =
        [⟨n,.node a,⟨fh.side,.fd ((asked s.cluster d).mount fh.side).next⟩⟩] := by
      rw [← isFh]
      simp [replies,gripOf,isA]
    refine invGripped inv node move steady (Nat.le_refl _) gives ?_ bytes
    rw [← isFh]
    refine .intro rfl here live held (fun zero side => ?_) fun _ isX => ?_
    · rw [isKey,copy side]
      exact ⟨born.copies zero,fun isX => (born.makes isX).2.2.1⟩
    · rw [isKey] at isX
      obtain ⟨zero,free,isY,empty,made⟩ := born.makes isX
      obtain ⟨isFh,isNew⟩ := createIsId made.tests made.isNew known entered grows file fileId chosen around
      obtain ⟨size,isId⟩ := fresh fun b mem same => by
        obtain ⟨q',there,found,isB⟩ := (seated b mem).linked
        exact freeUnlinked free (linkedFind.mpr ⟨q',there,found,isB.trans (same.trans isX)⟩)
      refine ⟨isId.trans isNew,by rw [isFh],size.trans ?_⟩
      subst zero
      rw [movedFirst node,← isY,spares.content enteredId.found,empty]
      rfl

theorem createInv {parent : Ref} {flags : Flags} (inv : Inv x y s)
    (node : s.cluster.nodes[n]? = some d)
    (fits : ∀ dir ∈ (asked s.cluster d).inode parent, CreateFits x y n (asked s.cluster d) dir name e)
    (ok : sfsCreate parent name flags e (asked s.cluster d) = some ((),d')) :
    Inv x y ⟨moved s.cluster n d',d'.replies.filterMap (gripOf n (.create parent name flags)) ++ s.grips⟩ := by
  have seated := askedSeated (inv.seated d (List.mem_of_getElem? node))
  have steady := createSteady ok
  have after := createSeated seated ok
  obtain ⟨dir,known,ran⟩ := createSome ok
  have fit := fits dir known
  cases ran with
  | noFs same =>
    have move : Moved x y s.cluster n d' := movedNames inv node after (by rw [same]; rfl)
      fun found => by rw [same]; exact found
    exact invSilent inv node move steady (by rw [same]; rfl) fun _ _ _ _ => bytesSame node fun _ => by rw [same]; rfl
  | @noId fd m err opened failed same =>
    obtain ⟨_,up,p,entry,_,entered,_,new,names⟩ := createMade opened
    have grows := openCreateGrows (.create .fs) dir.fd name flags e (asked s.cluster d).fs
    rw [opened] at grows
    have move : Moved x y s.cluster n d' := by
      refine movedLinked inv node after (fun found => ?_) (fun linked => .inl ?_) fun found => ?_
      · rw [same]
        exact grows.kept found
      · rw [same] at linked
        obtain ⟨q,there,found,number⟩ := linkedFind.mp linked
        rcases names found with old | rfl
        · exact linkedFind.mpr ⟨q,there,old,number⟩
        · obtain ⟨_,_,makes⟩ := fit.makes ((createdEntry entered new).trans (congrArg some number))
          obtain ⟨err,failed⟩ := failed
          exact (makesOpens makes failed).elim
      · rw [same]
        exact found
    exact invSilent inv node move steady (by rw [same]; rfl) fun _ _ _ _ => bytesSame node fun _ => by rw [same]; rfl
  | chosen opened openedId chosen lookup finish =>
    exact chosenInv inv node fit steady after known opened openedId chosen lookup finish

end Create

def Guarded (x y : Ino) (s : Session) : Event → Prop
  | .join _ _ => True
  | .on _ .restart => True
  | .on n (.request req e) => ∀ d ∈ s.cluster.nodes[n]?, Faithful (asked s.cluster d) req ∧ match req with
      | .lookup _ _ => True
      | .create parent name _ => ∀ dir ∈ (asked s.cluster d).inode parent, CreateFits x y n (asked s.cluster d) dir name e
      | .openFile ino flags =>
          ino ≠ .root ∧ ∀ i ∈ (asked s.cluster d).inode ino, OpenFits x y s n (asked s.cluster d) ino flags i
      | .writeBuf ino fh off data => ⟨n,ino,fh⟩ ∈ s.grips ∧ ∀ i ∈ (asked s.cluster d).inode ino,
          WriteFits x y s n (asked s.cluster d) ino fh off (min (e.count .write) data.length) i
      | .setattr ino size fi => CutFits x y s n (asked s.cluster d) ino size fi
      | .release ino fh => ⟨n,ino,fh⟩ ∈ s.grips
      | _ => False

section Runs
variable {x y : Ino} {s s' : Session}

theorem seatedTree {c c' : Cluster} {d : State} (tree : c'.shared.tree = c.shared.tree)
    (seated : Seated (c.view d)) : Seated (c'.view d) := fun b mem =>
  seatAges (seated b mem) rfl rfl ⟨Nat.le_refl _,fun _ known => known⟩ fun found => by
    rw [show (c'.view d).fs.vol.tree = (c.view d).fs.vol.tree from tree]
    exact found

theorem joinInv {opts : Options} {id : Volume Call} (inv : Inv x y s) :
    Inv x y ⟨⟨(boot opts s.cluster.shared id).fs.vol,s.cluster.nodes ++ [boot opts s.cluster.shared id]⟩,
      s.grips⟩ := by
  have stays : ∀ {i d}, s.cluster.nodes[i]? = some d →
      (s.cluster.nodes ++ [boot opts s.cluster.shared id])[i]? = some d := fun at_ => by
    rw [List.getElem?_append_left (List.getElem?_eq_some_iff.mp at_).1]
    exact at_
  obtain ⟨d0,first,has⟩ := inv.producer
  refine ⟨⟨d0,stays first,has⟩,fun d mem => ?_,fun grip mem => ?_,inv.apart⟩
  · rcases List.mem_append.mp mem with old | new
    · exact @seatedTree s.cluster _ d rfl (inv.seated d old)
    · cases List.mem_singleton.mp new
      exact fun c none => absurd none List.not_mem_nil
  · obtain ⟨d,at_,ok⟩ := inv.grips grip mem
    refine ⟨d,stays at_,?_⟩
    rw [copyFirst first] at ok
    simpa only [copyBytes,stays first] using ok

theorem restartInv {n : Nat} {d : State} (inv : Inv x y s) (node : s.cluster.nodes[n]? = some d) :
    Inv x y ⟨moved s.cluster n (restart (s.cluster.view d)),s.grips.filter fun grip => grip.node ≠ n⟩ := by
  have move : Moved x y s.cluster n (restart (s.cluster.view d)) :=
    movedNames inv node (fun c none => absurd none List.not_mem_nil) rfl id
  refine invMoved inv move (fun grip mem => ?_) (inv.apart.filter _)
  obtain ⟨old,other⟩ := List.mem_filter.mp mem
  obtain ⟨u,at_,ok⟩ := inv.grips grip old
  refine ⟨u,(List.getElem?_set_ne (of_decide_eq_true other).symm).trans at_,?_⟩
  have bytes : copyBytes (moved s.cluster n (restart (s.cluster.view d))) y = copyBytes s.cluster y :=
    bytesSame node fun _ => rfl
  rw [bytes]
  exact ok

theorem stepInv {event : Event} (inv : Inv x y s) (guarded : Guarded x y s event)
    (ok : Handles.step s event = some s') : Inv x y s' := by
  cases event with
  | join opts id =>
    cases Option.some.inj ok
    exact joinInv inv
  | on n one =>
    cases one with
    | restart =>
      obtain ⟨c,next,rfl⟩ := Option.map_eq_some_iff.mp ok
      obtain ⟨d,node,last⟩ := Option.bind_eq_some_iff.mp next
      cases Option.some.inj last
      exact restartInv inv node
    | request req e =>
      obtain ⟨d,d',node,ran,rfl⟩ := stepAsked ok
      have fits := (guarded d node).2
      cases req with
      | lookup parent name => exact lookupInv inv node ran
      | create parent name flags => exact createInv inv node fits ran
      | openFile ino flags => exact openInv inv node fits.1 fits.2 ran
      | writeBuf ino fh off data => exact writeInv inv node fits.1 fits.2 ran
      | setattr ino size fi => exact setattrInv inv node fits ran
      | release ino fh => exact releaseInv inv node fits ran
      | _ => exact fits.elim

def start (opts : Options) (fs id : Volume Call) : Session :=
  ⟨⟨(boot opts fs id).fs.vol,[boot opts fs id]⟩,[]⟩

theorem startInv {opts : Options} {fs id : Volume Call} (both : Linked fs x → Linked id y) :
    Inv x y (start opts fs id) := by
  refine ⟨⟨_,rfl,both⟩,fun d mem => ?_,fun grip mem => absurd mem List.not_mem_nil,List.Pairwise.nil⟩
  cases List.mem_singleton.mp mem
  exact fun c none => absurd none List.not_mem_nil

end Runs

theorem releasePublishes {opts : Options} {fs id : Volume Call} {x y : Ino} {events : List Event} {s : Session}
    {n : Nat} {ino : Ref} {fh : Handle} {e : Env Call} {d : State} {i : Inode} {f : File}
    (both : Linked fs x → Linked id y) (meets : Meets Handles.step (Guarded x y) (start opts fs id) events)
    (ok : run Handles.step (start opts fs id) events = some s) (held : ⟨n,ino,fh⟩ ∈ s.grips)
    (node : s.cluster.nodes[n]? = some d) (filed : filedAs d x ino)
    (writes : mayWrite (d.mount fh.side) fh.fd = true) (known : d.inode ino = some i)
    (seat : d.fs.file i.fd = some f) (reg : f.entry.kind = .reg) (opens : e.fault .sizeOpen = none)
    (sets : e.fault .sizeSet = none) :
    ∃ s', Handles.step s (.on n (.request (.release ino fh) e)) = some s' ∧
      (s'.cluster.shared.nodes x).xattr f3Size = some (digits (copyBytes s'.cluster y)) := by
  have inv : Inv x y s := Lib.Run.invariant (Guarded x y) (Inv x y) stepInv (startInv both) meets ok
  obtain ⟨u,at_,mine⟩ := inv.grips _ held
  obtain rfl : u = d := Option.some.inj (at_.symm.trans node)
  obtain @⟨a,c,g,isIno,here,live,file,_,sized⟩ := mine
  have isIno : ino = .node a := isIno
  subst isIno
  cases (inodeNode here).symm.trans known
  have number : c.key.1 = x := (cellFiled here x).mp filed
  have wrote : g.access.writes = true := by simpa only [mayWrite,file] using writes
  obtain ⟨_,_,size⟩ := sized wrote number
  have known : (asked s.cluster u).inode (.node a) = some c.value := inodeNode here
  obtain ⟨k,isFd⟩ := fdOfFile seat
  obtain ⟨_,d',ran,_⟩ :=
    @Service.saysRelease e (asked s.cluster u) (.node a) fh ⟨c.value,known,fun _ closed => by cases isFd.symm.trans closed⟩
  have released := releaseSome rfl known ran
  have isX : f.entry.ino = x :=
    ((inv.seated u (List.mem_of_getElem? node) c (Arena.atAddrMem here).1).file f seat).trans number
  have may : mayWrite ((asked s.cluster u).mount fh.side) fh.fd = true := by
    simpa only [mayWrite,askedFile] using writes
  have published := released.published seat reg may opens sets
  refine ⟨_,askedStep node ran,?_⟩
  have bytes : copyBytes (moved s.cluster n d') y = copyBytes s.cluster y :=
    bytesSame node fun _ => released.same .id y
  rw [isX,size,← bytes] at published
  exact published

instance (x y s n d ino flags i) : Decidable (OpenFits x y s n d ino flags i) :=
  decidable_of_iff' _ ⟨fun h => And.intro h.seat (And.intro h.paired (And.intro h.sized h.alone)),
    fun ⟨seat,paired,sized,alone⟩ => ⟨seat,paired,sized,alone⟩⟩

instance (x y s n d ino fh off res i) : Decidable (WriteFits x y s n d ino fh off res i) :=
  decidable_of_iff' _ ⟨fun h => And.intro h.lands (And.intro h.some (And.intro h.alone h.within)),
    fun ⟨lands,full,alone,within⟩ => ⟨lands,full,alone,within⟩⟩

instance (x y s n d ino size fi) : Decidable (CutFits x y s n d ino size fi) :=
  decidable_of_iff' _ ⟨fun h => And.intro h.held (And.intro h.paired h.same),
    fun ⟨held,paired,same⟩ => ⟨held,paired,same⟩⟩

instance (y d dir name e) : Decidable (MakesCopy y d dir name e) :=
  decidable_of_iff' _ ⟨fun h => And.intro h.isNew (And.intro h.tests (And.intro h.quiet
      (And.intro h.vacant (And.intro h.free h.number)))),
    fun ⟨isNew,tests,quiet,vacant,free,number⟩ => ⟨isNew,tests,quiet,vacant,free,number⟩⟩

instance (x y n d dir name e) : Decidable (CreateFits x y n d dir name e) :=
  decidable_of_iff' _ ⟨fun h => And.intro h.makes h.copies,fun ⟨makes,copies⟩ => ⟨makes,copies⟩⟩

instance (x y s event) : Decidable (Guarded x y s event) := by
  unfold Guarded
  rcases event with _ | ⟨_,one⟩
  · infer_instance
  · rcases one with ⟨req,_⟩ | _
    · rcases req <;> infer_instance
    · infer_instance

def producer : Session :=
  start ⟨[47,105],[49],true⟩ (emptyVolume 1 ⟨[115],okS⟩) (emptyVolume 7 ⟨[105],okI⟩)

-- Three bytes are written and released; a consumer reads, and the producer appends two bytes.
def appendRun : List Event :=
  [.on 0 (.request (.create .root nameId forWriting) (calm 10)),
   .on 0 (.request (.writeBuf (.node 0) ⟨.id,.fd 1⟩ 0 [1,2,3]) (calm 10)),
   .on 0 (.request (.release (.node 0) ⟨.id,.fd 1⟩) (calm 10)),
   .join ⟨[47,105],[50],true⟩ (emptyVolume 7 ⟨[105],okI⟩),
   .on 1 (.request (.lookup .root nameId) (calm 20)),
   .on 1 (.request (.openFile (.node 0) ⟨.read,false,false⟩) (calm 20)),
   .on 0 (.request (.openFile (.node 0) forWriting) (calm 10)),
   .on 0 (.request (.writeBuf (.node 0) ⟨.id,.fd 4⟩ 3 [4,5]) (calm 10))]

theorem appendPublished : ∃ s s', run Handles.step producer appendRun = some s ∧
    Handles.step s (.on 0 (.request (.release (.node 0) ⟨.id,.fd 4⟩) (calm 10))) = some s' ∧
    (s'.cluster.shared.nodes 10).xattr f3Size = some (digits (copyBytes s'.cluster 10)) ∧
    copyBytes s'.cluster 10 = 5 := by
  obtain ⟨s,d,i,f,ok,node,known,seat,meets,held,filed,writes,reg,five⟩ : ∃ s d i f,
      run Handles.step producer appendRun = some s ∧ s.cluster.nodes[0]? = some d ∧
      d.inode (.node 0) = some i ∧ d.fs.file i.fd = some f ∧
      Meets Handles.step (Guarded 10 10) producer appendRun ∧ ⟨0,.node 0,⟨.id,.fd 4⟩⟩ ∈ s.grips ∧
      filedAs d 10 (.node 0) ∧ mayWrite d.id (.fd 4) = true ∧ f.entry.kind = .reg ∧
      (Handles.step s (.on 0 (.request (.release (.node 0) ⟨.id,.fd 4⟩) (calm 10)))).map
        (fun s => copyBytes s.cluster 10) = some 5 := by
    refine ⟨_,_,_,_,rfl,rfl,rfl,rfl,?_⟩
    decide +kernel
  obtain ⟨s',next,published⟩ := releasePublishes (x := 10) (y := 10) (e := calm 10) (by decide) meets ok held
    node filed writes known seat reg rfl rfl
  rw [next] at five
  exact ⟨s,s',ok,next,published,Option.some.inj five⟩

theorem truncatePublishesMore : ∃ s s', run Handles.step producer
      [.on 0 (.request (.create .root nameId forWriting) (calm 10)),
       .on 0 (.request (.writeBuf (.node 0) ⟨.id,.fd 1⟩ 0 [1,2,3]) (calm 10)),
       .on 0 (.request (.setattr (.node 0) 1 (some ⟨.id,.fd 1⟩)) (calm 10))] = some s ∧
    s.grips = [⟨0,.node 0,⟨.id,.fd 1⟩⟩] ∧
    Handles.step s (.on 0 (.request (.release (.node 0) ⟨.id,.fd 1⟩) (calm 10))) = some s' ∧
    s'.grips = [] ∧ (s'.cluster.shared.nodes 10).xattr f3Size = some (digits 3) ∧
    copyBytes s'.cluster 10 = 1 := by
  refine ⟨_,_,rfl,?_,rfl,?_⟩ <;> decide +kernel

end F3.Driver.Sizes
