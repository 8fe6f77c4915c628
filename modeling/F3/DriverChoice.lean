import F3.DriverTable
import F3.DriverFrames

/-! Which copy an inode stands for. do_lookup asks the name and the directory a file is
reached through; the file itself has the answer of its create in an attribute. The two
agree while every name of the file is classified as the file is. The shared tree belongs
to several nodes, each of which has a driver of its own. -/
namespace F3.Driver.Choice
open Lib (Bytes Arena Cell Prog Act Tree)
open Lib.Posix
open Lib.Run (run Meets)

def created (v : Volume Call) (ino : Ino) : Bool := (v.nodes ino).origin = .create .fs

def carries (v : Volume Call) (ino : Ino) : Bool := ((v.nodes ino).xattr f3Id).isSome

def idName (v : Volume Call) (up : Entry) (name : FileName) : Bool :=
  marked v up.ino || f3IsIdExt name.val

def SortedAt (v : Volume Call) (p : List FileName) (name : FileName) : Prop :=
  ∀ up o, v.tree.find p = some up → v.tree.find (p ++ [name]) = some o → created v o.ino = true →
    carries v o.ino = idName v up name

def Sorted (v : Volume Call) : Prop := ∀ p name, SortedAt v p name

theorem idNameSame {v w : Volume Call} {up : Entry}
    (same : (w.nodes up.ino).xattr f3Id = (v.nodes up.ino).xattr f3Id) (name : FileName) :
    idName w up name = idName v up name := by
  simp [idName,marked,same]

theorem sortedAlike {m m' : Mount Call} (alike : Alike f3Id m m') (sorted : Sorted m.vol) :
    Sorted m'.vol := by
  intro p name up o here there made
  rw [alike.tree] at here there
  have before : created m.vol o.ino = true := by simpa [created,alike.origin] using made
  have agree := sorted p name up o here there before
  rw [idNameSame (alike.xattr up.ino)]
  simpa [carries,alike.xattr] using agree

theorem madeOthers {v w : Volume Call} {origin ino kind content p name}
    (done : v.make origin ino kind content p name = .ok w) (sorted : Sorted v) {q n}
    (other : q ++ [n] ≠ p ++ [name]) : SortedAt w q n := by
  obtain ⟨free,ok,tree,nodes,_,_⟩ := makeOk done
  intro up o here there made
  rw [tree,Tree.findAdd,if_neg other] at there
  have linked : ∀ {r e}, v.tree.find r = some e → w.nodes e.ino = v.nodes e.ino := by
    intro r e found
    have apart : e.ino ≠ ino := free.2 _ (Tree.foundMem.mp found)
    simp [nodes,Volume.setNode,apart]
  rw [tree,Tree.findAdd] at here
  split at here
  · rename_i below
    rw [below,Tree.absentBelow ok.2.1] at there
    contradiction
  · have before : created v o.ino = true := by simpa [created,linked there] using made
    have agree := sorted q n up o here there before
    rw [idNameSame (v := v) (by rw [linked here])]
    simpa [carries,linked there] using agree

theorem madeHere {v w : Volume Call} {origin ino kind content p name}
    (done : v.make origin ino kind content p name = .ok w) :
    w.tree.find (p ++ [name]) = some ⟨ino,kind⟩ ∧ w.nodes ino = ⟨content,fun _ => none,origin⟩ ∧
      (∀ up, v.tree.find p = some up → w.tree.find p = some up ∧ w.nodes up.ino = v.nodes up.ino) := by
  obtain ⟨free,ok,tree,nodes,_,_⟩ := makeOk done
  refine ⟨by simp [tree,Tree.findAdd],by simp [nodes,Volume.setNode],fun up found => ?_⟩
  have apart : up.ino ≠ ino := free.2 _ (Tree.foundMem.mp found)
  have shorter : ¬ p = p ++ [name] := by simp
  exact ⟨by rw [tree,Tree.findAdd,if_neg shorter]; exact found,by simp [nodes,Volume.setNode,apart]⟩

theorem makeSorted {v w : Volume Call} {origin ino kind content p name}
    (done : v.make origin ino kind content p name = .ok w) (sorted : Sorted v)
    (fits : origin = .create .fs → ∀ up, v.tree.find p = some up → idName v up name = false) :
    Sorted w := by
  intro q n
  by_cases here : q ++ [n] = p ++ [name]
  · obtain ⟨rfl,last⟩ := List.append_inj' here rfl
    cases last
    obtain ⟨new,node,old⟩ := madeHere done
    intro up o at_ there made
    cases Option.some.inj (new.symm.trans there)
    have origin : origin = .create .fs := by simpa [created,node] using made
    obtain ⟨_,ok,_⟩ := makeOk done
    obtain ⟨dir,found,_⟩ := (Option.any_eq_true _ _).mp ok.1
    obtain ⟨same,nodes⟩ := old dir found
    cases Option.some.inj (same.symm.trans at_)
    rw [idNameSame (v := v) (by rw [nodes]),fits origin up found]
    simp [carries,node]
  · exact madeOthers done sorted here

/- Taking the mark away: from no file that sfs_create made, and from a directory only if
the names of all such files in it say the same. -/
def Unmarkable (v : Volume Call) (ino : Ino) : Prop :=
  created v ino = false ∧ ∀ x ∈ v.tree.entries, created v x.2.ino = true →
    (v.tree.find x.1.dropLast).map Entry.ino = some ino → x.1.getLast?.all (fun n => f3IsIdExt n.val) = true
instance (v ino) : Decidable (Unmarkable v ino) := by unfold Unmarkable; infer_instance

theorem unmarkSorted {m : Mount Call} {ino} (sorted : Sorted m.vol) (may : Unmarkable m.vol ino) :
    Sorted (m.setAttr ino f3Id none).vol := by
  intro q n up o here there made
  have before : created m.vol o.ino = true := by simpa [created,setAttrOrigin] using made
  have agree := sorted q n up o here there before
  have apart : o.ino ≠ ino := by
    intro same
    rw [same,may.1] at before
    contradiction
  have still : carries (m.setAttr ino f3Id none).vol o.ino = carries m.vol o.ino := by
    simp [carries,setAttrXattr,apart]
  rw [still]
  by_cases parent : up.ino = ino
  · have ext : f3IsIdExt n.val = true := by
      have child := may.2 _ (Tree.foundMem.mp there) before
      have above : m.vol.tree.find q = some up := here
      simpa using child (by simp [above,parent])
    rw [agree]
    simp [idName,ext]
  · rw [idNameSame (v := m.vol) (by simp [setAttrXattr,parent])]
    exact agree

def Fits (v : Volume Call) (up : Entry) (name : FileName) (entry : Entry) : Prop :=
  created v entry.ino = true → carries v entry.ino = idName v up name
instance (v up name entry) : Decidable (Fits v up name entry) := by unfold Fits; infer_instance

theorem linkSorted {v w : Volume Call} {entry p name up} (done : v.link entry p name = .ok w)
    (at_ : v.tree.find p = some up) (fits : Fits v up name entry) (sorted : Sorted v) : Sorted w := by
  obtain ⟨file,_,nodes,_,absent,find⟩ := linkOk done
  intro q n dir o here there made
  have above : v.tree.find q = some dir := by
    rw [find] at here
    split at here
    · rename_i new
      cases Option.some.inj here
      obtain ⟨d,found,isDir⟩ := Tree.foundParent there
      rw [find,if_pos new] at found
      cases Option.some.inj found
      rw [file] at isDir
      contradiction
    · exact here
  have before : created v o.ino = true := by simpa [created,nodes] using made
  have agree : carries v o.ino = idName v dir n := by
    rw [find] at there
    split at there
    · rename_i new
      obtain ⟨rfl,last⟩ := List.append_inj' new rfl
      cases last
      cases Option.some.inj there
      cases Option.some.inj (at_.symm.trans above)
      exact fits before
    · exact sorted q n dir o above there before
  rw [idNameSame (v := v) (by rw [nodes])]
  simpa [carries,nodes] using agree

theorem removeSorted {v w : Volume Call} {rmdir p} (done : v.remove rmdir p = .ok w)
    (sorted : Sorted v) : Sorted w := by
  obtain ⟨nodes,_,_,find⟩ := removeOk done
  intro q n up o here there made
  rw [find] at here there
  split at here <;> try contradiction
  split at there <;> try contradiction
  have before : created v o.ino = true := by simpa [created,nodes] using made
  rw [idNameSame (v := v) (by rw [nodes])]
  simpa [carries,nodes] using sorted q n up o here there before

theorem renameSorted {v w : Volume Call} {old q name up} (done : v.rename old (q ++ [name]) = .ok w)
    (at_ : v.tree.find q = some up) (fits : ∀ o, v.tree.find old = some o → Fits v up name o)
    (sorted : Sorted v) : Sorted w := by
  rcases renameOk done with ⟨rfl,_⟩ | ⟨nodes,_,apart,find⟩
  · exact sorted
  intro r n dir o here there made
  have before : created v o.ino = true := by simpa [created,nodes] using made
  rw [idNameSame (v := v) (by rw [nodes])]
  suffices agree : carries v o.ino = idName v dir n by simpa [carries,nodes] using agree
  rw [find] at here there
  split at there
  · rename_i below
    rcases List.prefix_concat_iff.mp below with top | inside
    · -- The renamed entry itself, in the directory it is moved to.
      obtain ⟨rfl,last⟩ := List.append_inj' top rfl
      cases last
      have shorter : ¬ q ++ [name] <+: q := by
        intro pre
        exact absurd pre.length_le (by simp)
      have outside : ¬ old <+: q := fun pre => apart (pre.trans (List.prefix_append q [name]))
      rw [if_neg shorter,if_neg outside] at here
      cases Option.some.inj (at_.symm.trans here)
      exact fits o (by simpa using there) before
    · -- Below it: the directory has moved along.
      obtain ⟨tail,rfl⟩ := inside
      rw [if_pos (List.prefix_append _ _)] at here
      refine sorted (old ++ tail) n dir o (by simpa using here) (by simpa using there) before
  · rename_i outside
    split at there <;> try contradiction
    rename_i elsewhere
    have outside' : ¬ q ++ [name] <+: r := fun pre => outside (pre.trans (List.prefix_append r [n]))
    have elsewhere' : ¬ old <+: r := fun pre => elsewhere (pre.trans (List.prefix_append r [n]))
    rw [if_neg outside',if_neg elsewhere'] at here
    exact sorted r n dir o here there before

structure Markable (v : Volume Call) (entry : Entry) : Prop where
  linked : ∃ r, v.tree.find r = some entry
  file : entry.isDir = false
  others : ∀ q n up o, v.tree.find q = some up → v.tree.find (q ++ [n]) = some o →
    created v o.ino = true → o ≠ entry → carries v o.ino = idName v up n
  own : ∀ q n up, v.tree.find q = some up → v.tree.find (q ++ [n]) = some entry →
    created v entry.ino = true → idName v up n = true

theorem markSorted {m : Mount Call} {entry} (ready : Markable m.vol entry) :
    Sorted (idSet m entry.ino).vol := by
  obtain ⟨r,linked⟩ := ready.linked
  intro q n up o here there made
  have before : created m.vol o.ino = true := by simpa [created,idSet,setAttrOrigin] using made
  have apart : up.ino ≠ entry.ino := by
    intro same
    obtain ⟨dir,found,isDir⟩ := Tree.foundParent there
    cases Option.some.inj (found.symm.trans here)
    rw [m.vol.distinct q r up entry here linked same,ready.file] at isDir
    contradiction
  rw [idNameSame (v := m.vol) (by simp [idSet,setAttrXattr,apart])]
  by_cases same : o = entry
  · subst same
    rw [ready.own q n up here there before]
    simp [carries,idSet,setAttrXattr]
  · have different : o.ino ≠ entry.ino :=
      fun ino => same (m.vol.distinct _ r o entry there linked ino)
    rw [← ready.others q n up o here there before same]
    simp [carries,idSet,setAttrXattr,different]

theorem existingMarkable {v : Volume Call} {p name up entry} (sorted : Sorted v)
    (at_ : v.tree.find p = some up) (here : v.tree.find (p ++ [name]) = some entry)
    (file : entry.isDir = false) (new : idName v up name = true) : Markable v entry := by
  refine ⟨⟨_,here⟩,file,fun q n up o above there made _ => sorted q n up o above there made,?_⟩
  intro q n dir above there made
  rw [← sorted q n dir entry above there made,sorted p name up entry at_ here made]
  exact new

theorem newMarkable {v w : Volume Call} {origin ino content p name up}
    (done : v.make origin ino .reg content p name = .ok w) (sorted : Sorted v)
    (at_ : v.tree.find p = some up) (new : idName v up name = true) : Markable w ⟨ino,.reg⟩ := by
  obtain ⟨here,_,old⟩ := madeHere done
  obtain ⟨above,nodes⟩ := old up at_
  obtain ⟨free,ok,tree,_⟩ := makeOk done
  refine ⟨⟨_,here⟩,rfl,?_,?_⟩
  · intro q n dir o atQ there made apart
    have other : q ++ [n] ≠ p ++ [name] := by
      intro same
      rw [same,here] at there
      exact apart (Option.some.inj there).symm
    exact madeOthers done sorted other dir o atQ there made
  · intro q n dir atQ there _
    by_cases same : q ++ [n] = p ++ [name]
    · obtain ⟨rfl,last⟩ := List.append_inj' same rfl
      cases last
      cases Option.some.inj (above.symm.trans atQ)
      rw [idNameSame (v := v) (by rw [nodes])]
      exact new
    · rw [tree,Tree.findAdd,if_neg same] at there
      exact absurd rfl (free.2 _ (Tree.foundMem.mp there))

theorem markableAlike {m m' : Mount Call} {entry} (alike : Alike f3Id m m')
    (ready : Markable m.vol entry) : Markable m'.vol entry := by
  have same : ∀ up n, idName m'.vol up n = idName m.vol up n :=
    fun up n => idNameSame (alike.xattr up.ino) n
  have made : ∀ ino, created m'.vol ino = created m.vol ino := fun ino => by
    simp [created,alike.origin]
  have carry : ∀ ino, carries m'.vol ino = carries m.vol ino := fun ino => by
    simp [carries,alike.xattr]
  refine ⟨by rw [alike.tree]; exact ready.linked,ready.file,?_,?_⟩
  · rw [alike.tree]
    intro q n up o above there before apart
    rw [made] at before
    rw [carry,same]
    exact ready.others q n up o above there before apart
  · rw [alike.tree]
    intro q n up above there before
    rw [made] at before
    rw [same]
    exact ready.own q n up above there before

def Awake (d : State) : Prop := ∀ c ∈ d.inodes.cells, c.value.Live

def Right (v : Volume Call) (c : Cell SrcId Inode) : Prop :=
  created v c.key.1 = true → c.value.isId = carries v c.key.1

structure Chosen (d d' : State) : Prop where
  fs : Alike f3Id d.fs d'.fs
  awake : Awake d'
  each : ∀ c ∈ d'.inodes.cells, (∃ b ∈ d.inodes.cells, b.key = c.key ∧ b.value.isId = c.value.isId) ∨
    Right d'.fs.vol c

theorem rightAlike {m m' : Mount Call} {b c : Cell SrcId Inode} (alike : Alike f3Id m m')
    (key : b.key = c.key) (same : b.value.isId = c.value.isId) (right : Right m.vol b) :
    Right m'.vol c := by
  intro made
  have before : created m.vol b.key.1 = true := by simpa [created,alike.origin,key] using made
  rw [← same,right before,key]
  simp [carries,alike.xattr]

theorem Chosen.trans {d d1 d' : State} (one : Chosen d d1) (two : Chosen d1 d') : Chosen d d' := by
  refine ⟨trans_of (Alike f3Id) one.fs two.fs,two.awake,fun c mem => ?_⟩
  rcases two.each c mem with ⟨b,memB,key,same⟩ | right
  · rcases one.each b memB with ⟨a,memA,key',same'⟩ | right
    · exact Or.inl ⟨a,memA,key'.trans key,same'.trans same⟩
    · exact Or.inr (rightAlike two.fs key same right)
  · exact Or.inr right

theorem isNewHereExact {e} {m : Mount Call} {dir : Inode} {name up p} (tests : Tests e)
    (at_ : m.dirAt dir.fd = .ok (up,p)) : isNewHere e m dir name = idName m.vol up name := by
  obtain ⟨f,known,rfl,isDir,_⟩ := dirAtFile at_
  have quiet := openPathQuiet .lookupOpen dir.fd name e m
  have still := heldFile (openPathHeld .lookupOpen dir.fd name e m) known
  have kind : f.entry.kind = .dir := by simpa [Entry.isDir] using isDir
  rw [isNewHere,f3IsIdExact tests still (Or.inl kind),idName]
  simp [marked,quiet.nodes]

theorem lookupChosen {parent name e} {d : State} {r d'} (tests : Tests e) (sorted : Sorted d.fs.vol)
    (awake : Awake d) (ok : doLookup parent name e d = some (r,d')) : Chosen d d' := by
  have quiet := (doLookupLooks parent name _ _ _ _ ok).fs
  have alike := quiet.alike f3Id
  cases looked ok with
  | missed up nothing failed table =>
    unfold Awake at awake
    rw [← table] at awake
    exact ⟨alike,awake,fun c mem => Or.inl ⟨c,by rwa [← table],rfl,rfl⟩⟩
  | @known dir newfd attr c src up found here live unchanged named table =>
    have open_ : ∀ x ∈ d'.inodes.cells, x.value.Live := by
      rw [table]
      exact Arena.allModify (fun x mem _ => awake x mem) (fun x mem _ => awake x mem)
    refine ⟨alike,open_,?_⟩
    rw [table]
    exact Arena.allModify (fun x mem _ => Or.inl ⟨x,mem,rfl,rfl⟩)
      (fun x mem _ => Or.inl ⟨x,mem,rfl,rfl⟩)
  | @built dir newfd attr c src conn up found key old entered dead unchanged named table =>
    obtain ⟨upEntry,p,entry,at_,there,newest,stat,_⟩ := resolved found
    have empty : c.value = {} := by
      rcases old with known | ⟨_,empty⟩
      · exact absurd (awake c (Arena.atKeyMem known).1) dead
      · exact empty
    have others := Arena.enterOthers entered rfl
    have open_ : ∀ x ∈ d'.inodes.cells, x.value.Live := by
      rw [table]
      refine Arena.allModify (fun x mem apart => awake x (others x mem apart)) (fun x mem _ => ?_)
      rw [newest]
      exact ⟨by simp [Inode.built,Inode.fill],by simp [Inode.built,Inode.fill]⟩
    refine ⟨alike,open_,?_⟩
    rw [table]
    refine Arena.allModify (fun x mem apart => Or.inl ⟨x,others x mem apart,rfl,rfl⟩)
      (fun x mem hit => Or.inr ?_)
    cases Arena.onlyAt entered mem hit
    obtain ⟨f,_,rfl,_,above⟩ := dirAtFile at_
    have ino : c.key.1 = entry.ino := by rw [key,stat]; rfl
    intro made
    have before : created d.fs.vol entry.ino = true := by
      simpa [created,quiet.nodes,ino] using made
    show (c.value.isId || isNewHere e d.fs dir name) = _
    rw [empty,isNewHereExact tests at_,← sorted p name _ entry above there before]
    simp [carries,quiet.nodes,ino]

end F3.Driver.Choice
