import Mathlib.Data.List.Pairwise
import F3.DriverSeats

/-! The size that a release publishes. user.f3.size is the largest end of a write that the
inode has seen, and consumers take it for the size of the copy that the producer holds. -/
namespace F3.Driver.Sizes
open Lib (Bytes Arena Cell Prog Tree)
open Lib.Posix
open Lib.Run (run Meets)
open Choice (Cluster Event)
open Handles

def copyBytes (c : Cluster) (y : Ino) : Nat := match c.nodes[0]? with
  | some d => (d.id.vol.nodes y).content.length
  | none => 0

def Linked (v : Volume Call) (ino : Ino) : Prop := ∃ x ∈ v.tree.entries, x.2.ino = ino
instance (v ino) : Decidable (Linked v ino) := by unfold Linked; infer_instance

theorem linkedFind {v : Volume Call} {ino : Ino} :
    Linked v ino ↔ ∃ q entry, v.tree.find q = some entry ∧ entry.ino = ino := by
  constructor
  · rintro ⟨⟨q,entry⟩,mem,number⟩
    exact ⟨q,entry,Tree.foundMem.mpr mem,number⟩
  · rintro ⟨q,entry,found,number⟩
    exact ⟨(q,entry),Tree.foundMem.mp found,number⟩

def filedAs (d : State) (x : Ino) : Ref → Prop
  | .root => False
  | .node a => ∃ c ∈ d.inodes.atAddr a, c.key.1 = x
instance (d x ref) : Decidable (filedAs d x ref) := by
  unfold filedAs
  rcases ref <;> infer_instance

/- A handle that is held: of the producer's inode of the file it is one of the copy `y`, and
one that writes to the file goes to an ID copy, through an inode that knows the size. -/
inductive GripOk (x y : Ino) (bytes : Nat) (d : State) (grip : Grip) : Prop where
  | intro {a c g} (ino : grip.ino = .node a) (here : d.inodes.atAddr a = some c) (live : c.value.Live)
      (file : (d.mount grip.fh.side).file grip.fh.fd = some g)
      (paired : grip.node = 0 → grip.fh.side = .id → (g.entry.ino = y ↔ c.key.1 = x))
      (sized : g.access.writes = true → c.key.1 = x →
        c.value.isId = true ∧ grip.fh.side = .id ∧ c.value.size = bytes)

def writing (s : Session) (x : Ino) (grip : Grip) : Prop := ∃ d ∈ s.cluster.nodes[grip.node]?,
  filedAs d x grip.ino ∧ ∃ g ∈ (d.mount grip.fh.side).file grip.fh.fd, g.access.writes = true
instance (s x grip) : Decidable (writing s x grip) := by unfold writing; infer_instance

def Apart (one two : Grip) : Prop := one.node = two.node → one.fh ≠ two.fh

instance : Std.Symm Apart := ⟨fun _ _ each node fh => each node.symm fh.symm⟩

structure Inv (x y : Ino) (s : Session) : Prop where
  producer : ∃ d, s.cluster.nodes[0]? = some d ∧ (Linked s.cluster.shared x → Linked d.id.vol y)
  seated : ∀ d ∈ s.cluster.nodes, Seated (s.cluster.view d)
  grips : ∀ grip ∈ s.grips, ∃ d, s.cluster.nodes[grip.node]? = some d ∧
    GripOk x y (copyBytes s.cluster y) d grip
  apart : s.grips.Pairwise Apart

section Grips
variable {x y : Ino} {b b' : Nat} {d d' : State} {grip : Grip} {s : Session}

theorem mountFile {side : Side} {slot : Slot} {g : File} (fs : Held d.fs.next d.fs d'.fs)
    (id : Held d.id.next d.id d'.id) (file : (d.mount side).file slot = some g) :
    (d'.mount side).file slot = some g := by
  cases side with
  | fs => exact heldFile fs file
  | id => exact heldFile id file

theorem gripSteady (ok : GripOk x y b d grip) (steady : Steady d d') : GripOk x y b d' grip := by
  obtain ⟨ino,here,live,file,paired,sized⟩ := ok
  obtain ⟨v,stays,same⟩ := steady.cells here live
  refine .intro ino stays (same.live live) (mountFile steady.fs steady.id file) paired fun writes number => ?_
  rw [same.isId,same.size]
  exact sized writes number

theorem askedFile (s : Session) (d : State) (side : Side) (slot : Slot) :
    ((asked s.cluster d).mount side).file slot = (d.mount side).file slot := by cases side <;> rfl

theorem gripAsked (ok : GripOk x y b d grip) : GripOk x y b (asked s.cluster d) grip := by
  obtain ⟨ino,here,live,file,paired,sized⟩ := ok
  exact .intro ino here live ((askedFile s d _ _).trans file) paired sized

theorem gripLinked {a c} (seated : Seated (s.cluster.view d)) (here : d.inodes.atAddr a = some c) :
    Linked s.cluster.shared c.key.1 :=
  linkedFind.mpr (seated c (Arena.atAddrMem here).1).linked

theorem gripBytes (ok : GripOk x y b d grip) (node : s.cluster.nodes[grip.node]? = some d)
    (seated : Seated (s.cluster.view d))
    (same : writing s x grip → Linked s.cluster.shared x → b' = b) : GripOk x y b' d grip := by
  obtain ⟨ino,here,live,file,paired,sized⟩ := ok
  refine .intro ino here live file paired fun writes number => ?_
  have filed : filedAs d x grip.ino := by
    rw [ino]
    exact ⟨_,here,number⟩
  rw [same ⟨d,node,filed,_,file,writes⟩ (number ▸ gripLinked seated here)]
  exact sized writes number

theorem askedSeated (seated : Seated (s.cluster.view d)) : Seated (asked s.cluster d) :=
  fun c mem => ⟨(seated c mem).linked,(seated c mem).old,(seated c mem).file⟩

theorem freshHandle {side : Side} {k : Fd} (ok : GripOk x y b d grip) (new : (d.mount side).next ≤ k) :
    grip.fh ≠ ⟨side,.fd k⟩ := by
  obtain ⟨_,_,_,file,_,_⟩ := ok
  intro same
  rw [same] at file
  exact absurd (fileOld file) (Nat.not_lt.mpr new)

end Grips

structure Moved (x y : Ino) (c : Cluster) (n : Nat) (d' : State) : Prop where
  seated : Seated d'
  tree : ∀ {q entry}, c.shared.tree.find q = some entry → d'.fs.vol.tree.find q = some entry
  born : ∀ {d}, (c.nodes.set n d')[0]? = some d → Linked d'.fs.vol x → Linked d.id.vol y

def moved (c : Cluster) (n : Nat) (d' : State) : Cluster := ⟨d'.fs.vol,c.nodes.set n d'⟩

section Step
variable {x y : Ino} {s : Session} {n : Nat} {d d' : State}

theorem invMoved {grips : List Grip} (inv : Inv x y s)
    (move : Moved x y s.cluster n d')
    (each : ∀ grip ∈ grips, ∃ u, (s.cluster.nodes.set n d')[grip.node]? = some u ∧
      GripOk x y (copyBytes (moved s.cluster n d') y) u grip)
    (apart : grips.Pairwise Apart) :
    Inv x y ⟨moved s.cluster n d',grips⟩ := by
  refine ⟨?_,?_,each,apart⟩
  · obtain ⟨d0,first,_⟩ := inv.producer
    have bound : 0 < (s.cluster.nodes.set n d').length := by
      rw [List.length_set]
      exact (List.getElem?_eq_some_iff.mp first).1
    exact ⟨_,List.getElem?_eq_getElem bound,move.born (List.getElem?_eq_getElem bound)⟩
  · intro u mem
    rcases List.mem_or_eq_of_mem_set mem with old | rfl
    · intro c cell
      have ages : Ages (s.cluster.view u).fs ((moved s.cluster n d').view u).fs :=
        ⟨Nat.le_refl _,fun _ known => known⟩
      exact seatAges (inv.seated u old c cell) rfl rfl ages move.tree
    · exact move.seated

theorem copyFirst (first : s.cluster.nodes[0]? = some d) :
    copyBytes s.cluster y = (d.id.vol.nodes y).content.length := by
  simp only [copyBytes,first]

theorem movedFirst (first : s.cluster.nodes[0]? = some d) :
    copyBytes (moved s.cluster 0 d') y = (d'.id.vol.nodes y).content.length := by
  have here : (s.cluster.nodes.set 0 d')[0]? = some d' :=
    setHere d' first
  simp only [copyBytes,moved,here]

theorem movedOther (other : n ≠ 0) : copyBytes (moved s.cluster n d') y = copyBytes s.cluster y := by
  simp only [copyBytes,moved,List.getElem?_set_ne other]

theorem bytesSame (node : s.cluster.nodes[n]? = some d)
    (same : n = 0 → (d'.id.vol.nodes y).content = (d.id.vol.nodes y).content) :
    copyBytes (moved s.cluster n d') y = copyBytes s.cluster y := by
  by_cases zero : n = 0
  · subst zero
    rw [movedFirst node,copyFirst node,same rfl]
  · exact movedOther zero

theorem movedLinked (inv : Inv x y s) (node : s.cluster.nodes[n]? = some d) (seated : Seated d')
    (tree : ∀ {q entry}, s.cluster.shared.tree.find q = some entry → d'.fs.vol.tree.find q = some entry)
    (names : Linked d'.fs.vol x → Linked s.cluster.shared x ∨ n = 0 ∧ Linked d'.id.vol y)
    (kept : ∀ {q entry}, d.id.vol.tree.find q = some entry → d'.id.vol.tree.find q = some entry) :
    Moved x y s.cluster n d' := by
  refine ⟨seated,tree,fun {u} first linked => ?_⟩
  obtain ⟨d0,at0,has⟩ := inv.producer
  by_cases zero : n = 0
  · subst zero
    cases at0.symm.trans node
    rw [setHere d' node] at first
    cases Option.some.inj first
    rcases names linked with before | ⟨_,now⟩
    · obtain ⟨q,entry,found,number⟩ := linkedFind.mp (has before)
      exact linkedFind.mpr ⟨q,entry,kept found,number⟩
    · exact now
  · rw [List.getElem?_set_ne zero,at0] at first
    cases Option.some.inj first
    exact has ((names linked).resolve_right fun both => zero both.1)

theorem linkedSame {v w : Volume Call} {ino : Ino} (tree : w.tree = v.tree) (linked : Linked w ino) :
    Linked v ino := by
  unfold Linked at linked ⊢
  rw [← tree]
  exact linked

theorem movedNames (inv : Inv x y s) (node : s.cluster.nodes[n]? = some d) (seated : Seated d')
    (tree : d'.fs.vol.tree = s.cluster.shared.tree)
    (kept : ∀ {q entry}, d.id.vol.tree.find q = some entry → d'.id.vol.tree.find q = some entry) :
    Moved x y s.cluster n d' :=
  movedLinked inv node seated (fun found => tree ▸ found) (fun linked => .inl (linkedSame tree linked)) kept

theorem oldGrips (inv : Inv x y s) (node : s.cluster.nodes[n]? = some d) (steady : Steady (asked s.cluster d) d')
    (same : ∀ grip ∈ s.grips, writing s x grip → Linked s.cluster.shared x →
      copyBytes (moved s.cluster n d') y = copyBytes s.cluster y) :
    ∀ grip ∈ s.grips, ∃ u, (s.cluster.nodes.set n d')[grip.node]? = some u ∧
      GripOk x y (copyBytes (moved s.cluster n d') y) u grip := by
  intro grip mem
  obtain ⟨u,at_,ok⟩ := inv.grips grip mem
  have ok := gripBytes ok at_ (inv.seated u (List.mem_of_getElem? at_)) (same grip mem)
  by_cases here : n = grip.node
  · subst here
    cases at_.symm.trans node
    exact ⟨d',setHere d' node,
      gripSteady (gripAsked ok) steady⟩
  · exact ⟨u,(List.getElem?_set_ne here).trans at_,ok⟩

theorem handlessGrips {replies : List Reply} (none : Handless replies) (n : Nat) (req : Req) :
    replies.filterMap (gripOf n req) = [] :=
  List.filterMap_eq_nil_iff.mpr (none n req)

theorem invSilent {req : Req} (inv : Inv x y s) (node : s.cluster.nodes[n]? = some d)
    (move : Moved x y s.cluster n d') (steady : Steady (asked s.cluster d) d')
    (none : d'.replies.filterMap (gripOf n req) = [])
    (same : ∀ grip ∈ s.grips, writing s x grip → Linked s.cluster.shared x →
      copyBytes (moved s.cluster n d') y = copyBytes s.cluster y) :
    Inv x y ⟨moved s.cluster n d',d'.replies.filterMap (gripOf n req) ++ s.grips⟩ := by
  rw [none]
  exact invMoved inv move (oldGrips inv node steady same) inv.apart

theorem invGripped {req : Req} {ino : Ref} {side : Side} {k : Fd} (inv : Inv x y s)
    (node : s.cluster.nodes[n]? = some d) (move : Moved x y s.cluster n d')
    (steady : Steady (asked s.cluster d) d') (new : ((asked s.cluster d).mount side).next ≤ k)
    (gives : d'.replies.filterMap (gripOf n req) = [⟨n,ino,⟨side,.fd k⟩⟩])
    (mine : GripOk x y (copyBytes (moved s.cluster n d') y) d' ⟨n,ino,⟨side,.fd k⟩⟩)
    (same : ∀ grip ∈ s.grips, writing s x grip → Linked s.cluster.shared x →
      copyBytes (moved s.cluster n d') y = copyBytes s.cluster y) :
    Inv x y ⟨moved s.cluster n d',d'.replies.filterMap (gripOf n req) ++ s.grips⟩ := by
  rw [gives]
  refine invMoved inv move (fun grip mem => ?_) (List.pairwise_cons.mpr ⟨fun grip mem sameNode => ?_,inv.apart⟩)
  · rcases List.mem_cons.mp mem with rfl | old
    · exact ⟨d',setHere d' node,mine⟩
    · exact oldGrips inv node steady same grip old
  · obtain ⟨u,at_,old⟩ := inv.grips grip mem
    have sameNode : n = grip.node := sameNode
    subst sameNode
    cases at_.symm.trans node
    exact (freshHandle (@gripAsked _ _ _ _ _ s old) new).symm

theorem lookupRan {parent : Ref} {name : FileName} {e : Env Call} (fresh : d.replies = [])
    (seated : Seated d) (ok : sfsLookup parent name e d = some ((),d')) : Steady d d' ∧ Seated d' ∧
      d'.fs.vol.tree = d.fs.vol.tree ∧ Spares d.id d'.id ∧ Handless d'.replies := by
  obtain ⟨r,u,looked,tail⟩ := Prog.bindSome ok
  have mute := (Service.lookupMute parent name e d r u looked).trans fresh
  obtain ⟨a,replied,none⟩ : ∃ a, reply a e u = some ((),d') ∧ ∀ n req, gripOf n req a = none := by
    split at tail
    · exact ⟨_,tail,fun _ _ => rfl⟩
    · exact ⟨_,tail,fun _ _ => rfl⟩
    · exact ⟨_,tail,fun _ _ => rfl⟩
  have steady := trans_of Steady (lookupSteady looked) (replySteady a e u _ _ replied)
  have after := lookupSeated seated looked
  have spares : Spares d.id u.id := lookupSpares looked
  rw [replySome replied] at steady ⊢
  refine ⟨steady,fun c mem => ⟨(after c mem).linked,(after c mem).old,(after c mem).file⟩,
    (doLookupLooks parent name e d r u looked).fs.tree,spares,?_⟩
  rw [mute]
  simpa [Handless] using none

theorem lookupInv {parent : Ref} {name : FileName} {e : Env Call} (inv : Inv x y s)
    (node : s.cluster.nodes[n]? = some d) (ok : sfsLookup parent name e (asked s.cluster d) = some ((),d')) :
    Inv x y ⟨moved s.cluster n d',d'.replies.filterMap (gripOf n (.lookup parent name)) ++ s.grips⟩ := by
  have seated := askedSeated (inv.seated d (List.mem_of_getElem? node))
  obtain ⟨steady,after,tree,spares,none⟩ := lookupRan rfl seated ok
  refine invSilent inv node (movedNames inv node after tree spares.kept) steady (handlessGrips none n _)
    fun _ _ _ linked => bytesSame node fun zero => ?_
  subst zero
  obtain ⟨d0,at0,has⟩ := inv.producer
  cases at0.symm.trans node
  obtain ⟨q,entry,found,rfl⟩ := linkedFind.mp (has linked)
  exact spares.content found

def Alone (s : Session) (x : Ino) : Prop := ∀ grip ∈ s.grips, ¬ writing s x grip
instance (s x) : Decidable (Alone s x) := by unfold Alone; infer_instance

def Paired (x y : Ino) (d : State) (ino : Ref) (i : Inode) : Prop :=
  i.isId = true → ((∃ g ∈ d.id.file i.idFd, g.entry.ino = y) ↔ filedAs d x ino)
instance (x y d ino i) : Decidable (Paired x y d ino i) := by unfold Paired; infer_instance

structure OpenFits (x y : Ino) (s : Session) (n : Nat) (d : State) (ino : Ref) (flags : Flags) (i : Inode) :
    Prop where
  seat : (d.fs.file i.fd).isSome = true
  paired : n = 0 → Paired x y d ino i
  sized : filedAs d x ino → flags.access.writes = true →
    i.isId = true ∧ i.size = if n = 0 ∧ flags.trunc = true then 0 else copyBytes s.cluster y
  alone : n = 0 → filedAs d x ino → flags.trunc = true → copyBytes s.cluster y = 0 ∨ Alone s x

theorem nodeCell {d : State} {ino : Ref} {i : Inode} (below : ino ≠ .root) (known : d.inode ino = some i) :
    ∃ a c, ino = .node a ∧ d.inodes.atAddr a = some c ∧ c.value = i := by
  cases ino with
  | root => exact absurd rfl below
  | node a =>
    obtain ⟨c,here,rfl⟩ := Option.map_eq_some_iff.mp known
    exact ⟨a,c,rfl,here,rfl⟩

theorem cellFiled {d : State} {a : Nat} {c} (here : d.inodes.atAddr a = some c) (number : Ino) :
    filedAs d number (.node a) ↔ c.key.1 = number := by
  constructor
  · rintro ⟨c',here',key⟩
    cases here.symm.trans here'
    exact key
  · exact fun key => ⟨c,here,key⟩

theorem seatLive {m : Mount Call} {i : Inode} {f} (seat : m.file i.fd = some f) : i.Live := by
  obtain ⟨n,isN⟩ := fdOfFile seat
  simp [Inode.Live,isN]

theorem openPaired {a : Nat} {c} {f : File} (here : d.inodes.atAddr a = some c)
    (paired : Paired x y d (.node a) c.value) (isId : c.value.isId = true)
    (file : (d.mount c.value.side).file c.value.slot = some f) : f.entry.ino = y ↔ c.key.1 = x := by
  rw [← cellFiled here x,← paired isId]
  simp only [Inode.side,Inode.slot,isId,if_true,State.mount] at file
  constructor
  · exact fun number => ⟨f,file,number⟩
  · rintro ⟨g,file',number⟩
    cases file.symm.trans file'
    exact number

theorem sideId {i : Inode} (side : i.side = .id) : i.isId = true := by
  cases which : i.isId with
  | true => rfl
  | false => simp [Inode.side,which] at side

theorem openInv {ino : Ref} {flags : Flags} {e : Env Call} (inv : Inv x y s)
    (node : s.cluster.nodes[n]? = some d) (below : ino ≠ .root)
    (fits : ∀ i ∈ (asked s.cluster d).inode ino, OpenFits x y s n (asked s.cluster d) ino flags i)
    (ok : sfsOpen ino flags e (asked s.cluster d) = some ((),d')) :
    Inv x y ⟨moved s.cluster n d',d'.replies.filterMap (gripOf n (.openFile ino flags)) ++ s.grips⟩ := by
  have seated := askedSeated (inv.seated d (List.mem_of_getElem? node))
  obtain ⟨i,u,first,_⟩ := Prog.bindSome ok
  obtain ⟨_,known,_⟩ := getInodeSome first
  obtain ⟨f,seat⟩ := Option.isSome_iff_exists.mp (fits i known).seat
  obtain ⟨steady,ran⟩ := openSome rfl known (fun k isK => fileOld (isK ▸ seat)) ok
  have named : Named [] (asked s.cluster d) d' := openNamed ino flags e _ _ d' ok
  have after := seatedTabled seated (openTabled minorSameFd ino flags e _ _ d' ok) (heldAges steady.fs)
    named.fs.tree
  have move : Moved x y s.cluster n d' :=
    movedNames inv node after named.fs.tree fun found => named.id.tree ▸ found
  obtain ⟨a,c,rfl,here,rfl⟩ := nodeCell below known
  cases ran with
  | failed replies same =>
    obtain ⟨err,replies⟩ := replies
    exact invSilent inv node move steady (by rw [replies]; rfl) fun _ _ _ _ => bytesSame node fun _ => same .id y
  | @opened f k file new kind replies now same cut =>
    have live := seatLive seat
    have fit := fits c.value known
    have filed : c.key.1 = x ↔ filedAs (asked s.cluster d) x (.node a) := (cellFiled here x).symm
    have paired : n = 0 → c.value.isId = true → (f.entry.ino = y ↔ c.key.1 = x) :=
      fun zero isId => openPaired here (fit.paired zero) isId file
    have stays : ¬ (n = 0 ∧ c.value.isId = true ∧ flags.trunc = true ∧ c.key.1 = x ∧ f.entry.kind = .reg) →
        copyBytes (moved s.cluster n d') y = copyBytes s.cluster y := by
      refine fun other => bytesSame node fun zero => same .id y fun isSide reg trunc number => ?_
      have isId := sideId isSide.symm
      exact other ⟨zero,isId,trunc,(paired zero isId).mp number,reg⟩
    have emptied : n = 0 → c.value.isId = true → flags.trunc = true → c.key.1 = x → f.entry.kind = .reg →
        copyBytes (moved s.cluster n d') y = 0 := by
      rintro rfl isId trunc number reg
      have empty := cut trunc reg
      simp only [Inode.side,isId,if_true,State.mount,(paired rfl isId).mpr number] at empty
      rw [movedFirst node,empty]
      rfl
    refine invGripped inv node move steady new (by rw [replies]; rfl) ?_ fun grip mem writes _ => ?_
    · obtain ⟨v,still,sameCell⟩ := steady.cells here live
      refine .intro rfl still (sameCell.live live) now (fun zero isSide => paired zero (sideId isSide))
        fun writes number => ?_
      have wanted : flags.access.writes = true := (openFlagsWrites _ flags).symm.trans writes
      obtain ⟨isId,size⟩ := fit.sized (filed.mp number) wanted
      refine ⟨sameCell.isId.trans isId,by simp [Inode.side,isId],?_⟩
      rw [sameCell.size,size]
      split
      · rename_i both
        exact (emptied both.1 isId both.2 number (kind wanted)).symm
      · rename_i other
        exact (stays fun all => other ⟨all.1,all.2.2.1⟩).symm
    · by_cases cutting : n = 0 ∧ c.value.isId = true ∧ flags.trunc = true ∧ c.key.1 = x ∧ f.entry.kind = .reg
      · obtain ⟨zero,isId,trunc,number,reg⟩ := cutting
        rw [emptied zero isId trunc number reg]
        exact (((fit.alone zero (filed.mp number) trunc).resolve_right fun alone =>
          alone grip mem writes)).symm
      · exact stays cutting

/- The producer writes no empty piece behind the end, and extends its copy only while no
other inode has a handle that writes to the file; a consumer extends nothing. -/
structure WriteFits (x y : Ino) (s : Session) (n : Nat) (d : State) (ino : Ref) (fh : Handle) (off res : Nat)
    (i : Inode) : Prop where
  lands : n = 0 → filedAs d x ino → landing (d.mount fh.side) fh.fd off = off
  some : n = 0 → filedAs d x ino → 0 < res ∨ off ≤ i.size
  alone : n = 0 → filedAs d x ino → off + res ≤ copyBytes s.cluster y ∨
    ∀ grip ∈ s.grips, writing s x grip → grip.node = 0 ∧ grip.ino = ino
  within : n ≠ 0 → filedAs d x ino → off + res ≤ i.size

theorem countedCells {a : Nat} {i : Inode} {off res : Nat} (table : d'.inodes =
      if i.isId = true ∧ i.size < off + res then
        ((asked s.cluster d).setInode (.node a) fun i => {i with size := off + res}).inodes
      else (asked s.cluster d).inodes) {b cell} (at_ : d.inodes.atAddr b = some cell) : ∃ v,
    d'.inodes.atAddr b = some {cell with value := v} ∧ v.fd = cell.value.fd ∧
      v.isId = cell.value.isId ∧ v.size = if b = a ∧ i.isId = true ∧ i.size < off + res then
        off + res else cell.value.size := by
  rw [table]
  by_cases grows : i.isId = true ∧ i.size < off + res
  · rw [if_pos grows]
    by_cases same : b = a
    · subst same
      exact ⟨_,Arena.atAddrModify at_,rfl,rfl,by rw [if_pos ⟨rfl,grows⟩]⟩
    · exact ⟨cell.value,(Arena.atAddrModifyOther same).trans at_,rfl,rfl,
        by rw [if_neg fun both => same both.1]⟩
  · rw [if_neg grows]
    exact ⟨cell.value,at_,rfl,rfl,by rw [if_neg fun both => grows both.2]⟩

structure Reached (x y : Ino) (s : Session) (n : Nat) (d' : State) (key : Ino) (off res : Nat) : Prop where
  stays : ¬ (n = 0 ∧ key = x) → copyBytes (moved s.cluster n d') y = copyBytes s.cluster y
  grown : n = 0 → key = x → copyBytes (moved s.cluster n d') y =
    if res = 0 then copyBytes s.cluster y else max (copyBytes s.cluster y) (off + res)

theorem writtenReached {fh : Handle} {g : File} {key : Ino} {off place res : Nat} {piece : Bytes}
    (node : s.cluster.nodes[n]? = some d) (size : piece.length = res)
    (lands : n = 0 → key = x → place = off)
    (paired : n = 0 → fh.side = .id → (g.entry.ino = y ↔ key = x)) (side : key = x → fh.side = .id)
    (changed : Changed fh.side g.entry.ino
      ((((asked s.cluster d).mount fh.side).vol.nodes g.entry.ino).content.pwrite place piece)
      (asked s.cluster d) d') : Reached x y s n d' key off res := by
  refine ⟨fun other => bytesSame node fun zero => changed.others .id y fun isSide number => ?_,?_⟩
  · exact other ⟨zero,(paired zero isSide.symm).mp number⟩
  · rintro rfl number
    have isSide := side number
    have copy := (paired rfl isSide).mpr number
    have content := changed.here
    simp only [isSide,State.mount,copy,lands rfl number] at content
    rw [movedFirst node,copyFirst node,content]
    split
    · rename_i none
      rw [List.eq_nil_of_length_eq_zero (size.trans none)]
      rfl
    · rename_i some
      rw [Bytes.pwriteSize _ _ (fun empty => some (by rw [← size,empty]; rfl)),size]
      rfl

theorem reachedBounded {a : Nat} {c} {fh : Handle} {off res : Nat} {i : Inode} (here : d.inodes.atAddr a = some c)
    (fit : WriteFits x y s n (asked s.cluster d) (.node a) fh off res i)
    (reached : Reached x y s n d' c.key.1 off res) :
    copyBytes (moved s.cluster n d') y = copyBytes s.cluster y ∨
      n = 0 ∧ ∀ grip ∈ s.grips, writing s x grip → grip.node = 0 ∧ grip.ino = .node a := by
  by_cases hit : n = 0 ∧ c.key.1 = x
  · rcases fit.alone hit.1 ((cellFiled here x).mpr hit.2) with short | others
    · left
      rw [reached.grown hit.1 hit.2]
      split <;> omega
    · exact .inr ⟨hit.1,others⟩
  · exact .inl (reached.stays hit)

theorem writtenGrip {a : Nat} {c} {fh : Handle} {off res : Nat} {grip : Grip} (here : d.inodes.atAddr a = some c)
    (node : s.cluster.nodes[grip.node]? = some d) (mem : grip ∈ s.grips)
    (fit : WriteFits x y s grip.node (asked s.cluster d) (.node a) fh off res c.value)
    (reached : Reached x y s grip.node d' c.key.1 off res)
    (fs : Held (asked s.cluster d).fs.next (asked s.cluster d).fs d'.fs)
    (id : Held (asked s.cluster d).id.next (asked s.cluster d).id d'.id)
    (table : d'.inodes = if c.value.isId = true ∧ c.value.size < off + res then
      ((asked s.cluster d).setInode (.node a) fun i => {i with size := off + res}).inodes
      else (asked s.cluster d).inodes)
    (ok : GripOk x y (copyBytes s.cluster y) d grip) :
    GripOk x y (copyBytes (moved s.cluster grip.node d') y) d' grip := by
  obtain @⟨b,cell,g,isGrip,there,alive,file,paired,sized⟩ := ok
  obtain ⟨v,stands,fd,isId,counted⟩ := countedCells table there
  have live : v.Live := by
    rw [Inode.Live,fd]
    exact alive
  refine .intro isGrip stands live (mountFile fs id ((askedFile s d _ _).trans file)) paired
    fun writes number => ?_
  obtain ⟨isIdG,side,size⟩ := sized writes number
  refine ⟨isId.trans isIdG,side,counted.trans ?_⟩
  by_cases same : b = a
  · subst same
    cases here.symm.trans there
    have filed := (cellFiled here x).mpr number
    by_cases zero : grip.node = 0
    · have some := fit.some zero filed
      rw [reached.grown zero number,← size]
      simp only [isIdG,true_and]
      split <;> split <;> omega
    · have short := fit.within zero filed
      rw [reached.stays fun both => zero both.1,← size,if_neg]
      omega
  · rw [if_neg fun both => same both.1,size]
    refine ((reachedBounded here fit reached).resolve_right fun others => ?_).symm
    have filed : filedAs d x grip.ino := by
      rw [isGrip]
      exact (cellFiled there x).mpr number
    have one := (others.2 grip mem ⟨d,node,filed,g,file,writes⟩).2
    rw [isGrip] at one
    exact same (Ref.node.inj one)

theorem writeInv {ino : Ref} {fh : Handle} {off : Nat} {data : Bytes} {e : Env Call} (inv : Inv x y s)
    (node : s.cluster.nodes[n]? = some d) (held : ⟨n,ino,fh⟩ ∈ s.grips)
    (fits : ∀ i ∈ (asked s.cluster d).inode ino,
      WriteFits x y s n (asked s.cluster d) ino fh off (min (e.count .write) data.length) i)
    (ok : sfsWriteBuf ino fh off data e (asked s.cluster d) = some ((),d')) :
    Inv x y ⟨moved s.cluster n d',
      d'.replies.filterMap (gripOf n (.writeBuf ino fh off data)) ++ s.grips⟩ := by
  have seated := askedSeated (inv.seated d (List.mem_of_getElem? node))
  obtain ⟨d0,at_,mine⟩ := inv.grips _ held
  cases at_.symm.trans node
  obtain @⟨a,c,g0,isIno,here,live,file0,paired,sized⟩ := mine
  have isIno : ino = .node a := isIno
  subst isIno
  have known : (asked s.cluster d).inode (.node a) = some c.value := inodeNode here
  have fit := fits c.value known
  have named : Named [] (asked s.cluster d) d' := namedData.write (.node a) fh off data e _ _ d' ok
  have tabled := (tabledNames minorSameFd).write (.node a) fh off data e _ _ d' ok
  have move : Held (asked s.cluster d).fs.next (asked s.cluster d).fs d'.fs → Moved x y s.cluster n d' :=
    fun fs => movedNames inv node (seatedTabled seated tabled (heldAges fs) named.fs.tree) named.fs.tree
      fun found => named.id.tree ▸ found
  cases writeSome rfl known ok with
  | failed replies same steady =>
    obtain ⟨err,replies⟩ := replies
    exact invSilent inv node (move steady.fs) steady (by rw [replies]; rfl) fun _ _ _ _ =>
      bytesSame node fun _ => same .id y
  | @written g file writes replies changed fs id table =>
    rw [askedFile] at file
    cases file.symm.trans file0
    have size : (data.take (min (e.count .write) data.length)).length = min (e.count .write) data.length := by
      rw [List.length_take]
      omega
    have lands : n = 0 → c.key.1 = x → _ := fun zero number => fit.lands zero ((cellFiled here x).mpr number)
    have reached := writtenReached node size lands paired (fun number => (sized writes number).2.1) changed
    rw [replies]
    refine invMoved inv (move fs) (fun grip mem => ?_) inv.apart
    obtain ⟨u,atGrip,okGrip⟩ := inv.grips grip mem
    by_cases other : n = grip.node
    · subst other
      obtain rfl : u = d := Option.some.inj (atGrip.symm.trans node)
      exact ⟨d',setHere d' node,writtenGrip here node mem fit reached fs id table okGrip⟩
    · refine ⟨u,(List.getElem?_set_ne other).trans atGrip,?_⟩
      refine gripBytes okGrip atGrip (inv.seated u (List.mem_of_getElem? atGrip)) fun writing _ => ?_
      exact (reachedBounded here fit reached).resolve_right fun ⟨zero,others⟩ =>
        other (zero.trans (others grip mem writing).1.symm)

structure CutFits (x y : Ino) (s : Session) (n : Nat) (d : State) (ino : Ref) (size : Nat)
    (fi : Option Handle) : Prop where
  held : ∀ fh ∈ fi, ⟨n,ino,fh⟩ ∈ s.grips
  paired : fi = none → n = 0 → ∀ i ∈ d.inode ino, Paired x y d ino i
  same : n = 0 → filedAs d x ino → size = copyBytes s.cluster y ∨ Alone s x

theorem targetFiled {ino : Ref} {size : Nat} {fi : Option Handle} {i : Inode} {g} (inv : Inv x y s)
    (node : s.cluster.nodes[0]? = some d) (fits : CutFits x y s 0 (asked s.cluster d) ino size fi)
    (known : (asked s.cluster d).inode ino = some i) (side : (target i fi).side = .id)
    (file : d.id.file (target i fi).fd = some g) (copy : g.entry.ino = y) : filedAs (asked s.cluster d) x ino := by
  cases fi with
  | some fh =>
    have side : fh.side = .id := side
    obtain ⟨u,at_,ok⟩ := inv.grips _ (fits.held fh rfl)
    obtain rfl : u = d := Option.some.inj (at_.symm.trans node)
    obtain @⟨a,c,g',isIno,here,live,file',paired,_⟩ := ok
    have isIno : ino = .node a := isIno
    simp only [side,State.mount] at file'
    cases file.symm.trans file'
    rw [isIno]
    exact (cellFiled here x).mpr ((paired rfl side).mp copy)
  | none =>
    have isId : i.isId = true := sideId side
    simp only [target,Inode.slot,isId,if_true] at file
    exact (fits.paired rfl rfl i known isId).mp ⟨g,file,copy⟩

theorem setattrInv {ino : Ref} {size : Nat} {fi : Option Handle} {e : Env Call} (inv : Inv x y s)
    (node : s.cluster.nodes[n]? = some d) (fits : CutFits x y s n (asked s.cluster d) ino size fi)
    (ok : sfsSetattr ino size fi e (asked s.cluster d) = some ((),d')) :
    Inv x y ⟨moved s.cluster n d',d'.replies.filterMap (gripOf n (.setattr ino size fi)) ++ s.grips⟩ := by
  have seated := askedSeated (inv.seated d (List.mem_of_getElem? node))
  obtain ⟨i,u,first,_⟩ := Prog.bindSome ok
  obtain ⟨_,known,_⟩ := getInodeSome first
  obtain ⟨steady,none,ran⟩ := setattrSome rfl known ok
  have named : Named [] (asked s.cluster d) d' := namedData.setattr ino size fi e _ _ d' ok
  have after := seatedTabled seated ((tabledNames minorSameFd).setattr ino size fi e _ _ d' ok) (heldAges steady.fs) named.fs.tree
  have move : Moved x y s.cluster n d' :=
    movedNames inv node after named.fs.tree fun found => named.id.tree ▸ found
  refine invSilent inv node move steady (handlessGrips none n _) fun grip mem writes _ => ?_
  cases ran with
  | failed same => exact bytesSame node fun _ => same .id y
  | @cut g file writes' changed =>
    by_cases hit : n = 0 ∧ (target i fi).side = .id ∧ g.entry.ino = y
    · obtain ⟨rfl,side,copy⟩ := hit
      have content := changed.here
      rw [side] at file content
      have filed := targetFiled inv node fits known side file copy
      rcases fits.same rfl filed with same | alone
      · rw [movedFirst node,← same,← copy]
        exact (congrArg List.length content).trans (Bytes.truncateSize _ _)
      · exact absurd writes (alone grip mem)
    · refine bytesSame node fun zero => changed.others .id y fun side copy => ?_
      exact hit ⟨zero,side.symm,copy⟩

theorem releaseInv {ino : Ref} {fh : Handle} {e : Env Call} (inv : Inv x y s)
    (node : s.cluster.nodes[n]? = some d) (held : ⟨n,ino,fh⟩ ∈ s.grips)
    (ok : sfsRelease ino fh e (asked s.cluster d) = some ((),d')) :
    Inv x y ⟨moved s.cluster n d',d'.replies.filterMap (gripOf n (.release ino fh)) ++
      s.grips.filter fun x => x ≠ ⟨n,ino,fh⟩⟩ := by
  have seated := askedSeated (inv.seated d (List.mem_of_getElem? node))
  obtain ⟨i,u,first,_⟩ := Prog.bindSome ok
  obtain ⟨_,known,_⟩ := getInodeSome first
  have ran := releaseSome rfl known ok
  have named : Named [] (asked s.cluster d) d' := releaseNamed (by decide) ino fh e _ _ d' ok
  have after := seatedTabled seated (releaseTabled minorSameFd ino fh e _ _ d' ok) ran.ages named.fs.tree
  have move : Moved x y s.cluster n d' :=
    movedNames inv node after named.fs.tree fun found => named.id.tree ▸ found
  have bytes : copyBytes (moved s.cluster n d') y = copyBytes s.cluster y :=
    bytesSame node fun _ => ran.same .id y
  rw [ran.replies]
  refine invMoved inv move (fun grip mem => ?_) (inv.apart.filter _)
  obtain ⟨old,other⟩ := List.mem_filter.mp mem
  obtain ⟨u,atGrip,okGrip⟩ := inv.grips grip old
  rw [bytes]
  by_cases here : n = grip.node
  · subst here
    obtain rfl : u = d := Option.some.inj (atGrip.symm.trans node)
    refine ⟨d',setHere d' node,?_⟩
    have differs : grip.fh ≠ fh := inv.apart.forall old held (of_decide_eq_true other) rfl
    obtain ⟨isIno,at_,live,file,paired,sized⟩ := @gripAsked _ _ _ _ _ s okGrip
    obtain ⟨v,stays,same⟩ := ran.cells at_ live
    refine .intro isIno stays (same.live live) (ran.files (fun side fd => ?_) file) paired
      fun writes number => ?_
    · exact differs (show Handle.mk grip.fh.side grip.fh.fd = Handle.mk fh.side fh.fd by rw [side,fd])
    · rw [same.isId,same.size]
      exact sized writes number
  · exact ⟨u,(List.getElem?_set_ne here).trans atGrip,okGrip⟩

end Step

end F3.Driver.Sizes
