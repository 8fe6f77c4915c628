import F3.Lib.PosixFrame

/-! Calls that change names and attributes, one lemma a call, and the calls that leave
all names and one attribute of every file as they are. -/
namespace F3.Lib.Posix
open Lib (Bytes Tree Act)
variable {χ α : Type}

structure Alike (attr : Bytes) (m m' : Mount χ) : Prop where
  tree : m'.vol.tree = m.vol.tree
  xattr : ∀ ino, (m'.vol.nodes ino).xattr attr = (m.vol.nodes ino).xattr attr
  origin : ∀ ino, (m'.vol.nodes ino).origin = (m.vol.nodes ino).origin
  mount : m'.vol.mount = m.vol.mount

instance (attr : Bytes) : IsPreorder (Mount χ) (Alike attr) where
  refl _ := ⟨rfl,fun _ => rfl,fun _ => rfl,rfl⟩
  trans _ _ _ one two := ⟨two.tree.trans one.tree,fun i => (two.xattr i).trans (one.xattr i),
    fun i => (two.origin i).trans (one.origin i),two.mount.trans one.mount⟩

theorem Quiet.alike {m m' : Mount χ} (quiet : Quiet m m') (attr : Bytes) : Alike attr m m' := by
  refine ⟨quiet.tree,fun _ => ?_,fun _ => ?_,quiet.mount⟩ <;> rw [quiet.nodes]

theorem keepsAlike {p : Sys χ α} (quiet : Act.Keeps Quiet p) (attr : Bytes) :
    Act.Keeps (Alike attr) p := fun e m => (quiet e m).alike attr

theorem setContentAlike (m : Mount χ) (ino : Ino) (content : Bytes) (attr : Bytes) :
    Alike attr m (m.setContent ino content) := by
  refine ⟨rfl,fun i => ?_,fun i => ?_,rfl⟩ <;>
    by_cases here : i = ino <;> simp [Mount.setContent,Volume.setNode,here]

theorem clearedAlike (flags : Flags) (m : Mount χ) (entry : Entry) (attr : Bytes) :
    Alike attr m (cleared flags m entry) := by
  unfold cleared
  split
  · exact setContentAlike m entry.ino [] attr
  · exact refl_of (Alike attr) m

theorem reopenAlike (c : χ) (slot : Slot) (flags : Flags) (attr : Bytes) :
    Act.Keeps (Alike attr) (reopen c slot flags) := by
  intro e m
  rcases reopenCases c slot flags e m with ⟨err,same⟩ | ⟨f,_,same⟩
  · rw [same]
    exact refl_of (Alike attr) m
  · rw [same]
    exact trans_of (Alike attr) (clearedAlike flags m f.entry attr) ((installQuiet _ _).alike attr)

theorem writableOk {m : Mount χ} {slot f} (ok : writable m slot = .ok f) :
    m.file slot = some f ∧ f.access.writes = true ∧ f.entry.kind = .reg := by
  unfold writable at ok
  split at ok <;> try contradiction
  rename_i g known
  split at ok <;> try contradiction
  rename_i both
  cases Except.ok.inj ok
  exact ⟨known,both⟩

theorem ftruncateCases (c : χ) (slot : Slot) (size : Nat) (e : Env χ) (m : Mount χ) :
    (∃ err, ftruncate c slot size e m = (.error err,m)) ∨
    ∃ f, m.file slot = some f ∧ f.access.writes = true ∧ ftruncate c slot size e m =
      (.ok (),m.setContent f.entry.ino ((m.vol.nodes f.entry.ino).content.truncate size)) := by
  rcases syscallCases c _ e m with failed | ⟨a,m',_,done,same⟩
  · exact .inl failed
  · obtain ⟨f,ok,last⟩ := exceptBind done
    cases Except.ok.inj last
    exact .inr ⟨f,(writableOk ok).1,(writableOk ok).2.1,same⟩

theorem truncateAtCases (c : χ) (slot : Slot) (size : Nat) (e : Env χ) (m : Mount χ) :
    (∃ err, truncateAt c slot size e m = (.error err,m)) ∨
    ∃ f, m.file slot = some f ∧ truncateAt c slot size e m =
      (.ok (),m.setContent f.entry.ino ((m.vol.nodes f.entry.ino).content.truncate size)) := by
  rcases syscallCases c _ e m with failed | ⟨a,m',_,done,same⟩
  · exact .inl failed
  · split at done <;> try contradiction
    rename_i f known
    split at done <;> try contradiction
    cases Except.ok.inj done
    exact .inr ⟨f,known,same⟩

theorem pwriteAtCases (c : χ) (slot : Slot) (off : Nat) (data : Bytes) (e : Env χ) (m : Mount χ) :
    (∃ err, pwriteAt c slot off data e m = (.error err,m)) ∨
    ∃ f, m.file slot = some f ∧ f.access.writes = true ∧ pwriteAt c slot off data e m =
      (.ok (min (e.count c) data.length),m.setContent f.entry.ino
        ((m.vol.nodes f.entry.ino).content.pwrite off (data.take (min (e.count c) data.length)))) := by
  rcases syscallCases c _ e m with failed | ⟨a,m',_,done,same⟩
  · exact .inl failed
  · obtain ⟨f,ok,last⟩ := exceptBind done
    cases Except.ok.inj last
    exact .inr ⟨f,(writableOk ok).1,(writableOk ok).2.1,same⟩

theorem ftruncateAlike (c : χ) (slot : Slot) (size : Nat) (attr : Bytes) :
    Act.Keeps (Alike attr) (ftruncate c slot size) := by
  intro e m
  rcases ftruncateCases c slot size e m with ⟨err,same⟩ | ⟨f,_,_,same⟩ <;> rw [same]
  · exact refl_of (Alike attr) m
  · exact setContentAlike m _ _ attr

theorem truncateAtAlike (c : χ) (slot : Slot) (size : Nat) (attr : Bytes) :
    Act.Keeps (Alike attr) (truncateAt c slot size) := by
  intro e m
  rcases truncateAtCases c slot size e m with ⟨err,same⟩ | ⟨f,_,same⟩ <;> rw [same]
  · exact refl_of (Alike attr) m
  · exact setContentAlike m _ _ attr

theorem pwriteAtAlike (c : χ) (slot : Slot) (off : Nat) (data : Bytes) (attr : Bytes) :
    Act.Keeps (Alike attr) (pwriteAt c slot off data) := by
  intro e m
  rcases pwriteAtCases c slot off data e m with ⟨err,same⟩ | ⟨f,_,_,same⟩ <;> rw [same]
  · exact refl_of (Alike attr) m
  · exact setContentAlike m _ _ attr

theorem setAttrXattr (m : Mount χ) (ino : Ino) (name : Bytes) (value : Option Bytes) (i : Ino)
    (attr : Bytes) : ((m.setAttr ino name value).vol.nodes i).xattr attr =
      if i = ino ∧ attr = name then value else (m.vol.nodes i).xattr attr := by
  by_cases here : i = ino
  · simp [Mount.setAttr,Volume.setNode,here]
  · simp [Mount.setAttr,Volume.setNode,here]

theorem setAttrOrigin (m : Mount χ) (ino : Ino) (name : Bytes) (value : Option Bytes) (i : Ino) :
    ((m.setAttr ino name value).vol.nodes i).origin = (m.vol.nodes i).origin := by
  by_cases here : i = ino <;> simp [Mount.setAttr,Volume.setNode,here]

theorem setAttrAlike (m : Mount χ) (ino : Ino) {name attr : Bytes} (value : Option Bytes)
    (other : attr ≠ name) : Alike attr m (m.setAttr ino name value) :=
  ⟨rfl,fun i => by rw [setAttrXattr,if_neg (fun both => other both.2)],
    fun i => setAttrOrigin m ino name value i,rfl⟩

theorem alikeSetAttr {m m' : Mount χ} {attr : Bytes} (same : Alike attr m m') (ino : Ino)
    (value : Option Bytes) : Alike attr (m.setAttr ino attr value) (m'.setAttr ino attr value) := by
  refine ⟨same.tree,fun i => ?_,fun i => ?_,same.mount⟩
  · rw [setAttrXattr,setAttrXattr,same.xattr]
  · rw [setAttrOrigin,setAttrOrigin,same.origin]

theorem attrFileOk {m : Mount χ} {slot f} (ok : attrFile m slot = .ok f) :
    m.file slot = some f ∧ (f.entry.kind = .dir ∨ f.entry.kind = .reg) := by
  unfold attrFile at ok
  split at ok <;> try contradiction
  rename_i g known
  split at ok <;> try contradiction
  all_goals
    rename_i kind
    cases Except.ok.inj ok
  · exact ⟨known,Or.inl kind⟩
  · exact ⟨known,Or.inr kind⟩

theorem fullFileAccess {m : Mount χ} {slot f} (full : fullFile m slot = .ok f) :
    m.file slot = some f ∧ f.access ≠ .path ∧ (f.entry.kind = .dir ∨ f.entry.kind = .reg) := by
  have known := fullFileOk full
  unfold fullFile at full
  simp only [known] at full
  split at full <;> try contradiction
  rename_i access
  exact ⟨known,access,(attrFileOk full).2⟩

theorem fsetxattrCases (c : χ) (slot : Slot) (name value : Bytes) (e : Env χ) (m : Mount χ) :
    (∃ err, fsetxattr c slot name value e m = (.error err,m)) ∨
    ∃ f, m.file slot = some f ∧ f.access ≠ .path ∧
      fsetxattr c slot name value e m = (.ok (),m.setAttr f.entry.ino name (some value)) := by
  refine (syscallCases c _ e m).imp id ?_
  rintro ⟨a,m',_,done,same⟩
  obtain ⟨f,full,last⟩ := exceptBind done
  obtain ⟨known,access,_⟩ := fullFileAccess full
  cases Except.ok.inj last
  exact ⟨f,known,access,same⟩

theorem setxattrAtCases (c : χ) (slot : Slot) (name value : Bytes) (flag : SetFlag) (e : Env χ)
    (m : Mount χ) : (∃ err, setxattrAt c slot name value flag e m = (.error err,m)) ∨
    ∃ f, m.file slot = some f ∧
      setxattrAt c slot name value flag e m = (.ok (),m.setAttr f.entry.ino name (some value)) := by
  refine (syscallCases c _ e m).imp id ?_
  rintro ⟨a,m',_,done,same⟩
  obtain ⟨f,ok,rest⟩ := exceptBind done
  simp only at rest
  split at rest <;> try contradiction
  split at rest <;> try contradiction
  cases Except.ok.inj rest
  exact ⟨f,(attrFileOk ok).1,same⟩

theorem removexattrAtCases (c : χ) (slot : Slot) (name : Bytes) (e : Env χ) (m : Mount χ) :
    (∃ err, removexattrAt c slot name e m = (.error err,m)) ∨
    ∃ f value, m.file slot = some f ∧ (m.vol.nodes f.entry.ino).xattr name = some value ∧
      removexattrAt c slot name e m = (.ok (),m.setAttr f.entry.ino name none) := by
  refine (syscallCases c _ e m).imp id ?_
  rintro ⟨a,m',_,done,same⟩
  obtain ⟨f,ok,rest⟩ := exceptBind done
  split at rest <;> try contradiction
  rename_i value present
  cases Except.ok.inj rest
  exact ⟨f,value,(attrFileOk ok).1,present,same⟩

theorem readlinkFdCases (c : χ) (slot : Slot) (e : Env χ) (m : Mount χ) :
    (∃ err, readlinkFd c slot e m = (.error err,m)) ∨
    ∃ f p, m.file slot = some f ∧ m.filePath f = some p ∧
      (absolute (m.vol.mount ++ p)).length < 4096 ∧
      readlinkFd c slot e m = (.ok (absolute (m.vol.mount ++ p)),m) := by
  refine (syscallCases c _ e m).imp id ?_
  rintro ⟨a,m',_,done,same⟩
  split at done <;> try contradiction
  rename_i f known
  split at done <;> try contradiction
  rename_i p placed
  simp only at done
  split at done <;> try contradiction
  rename_i short
  cases Except.ok.inj done
  exact ⟨f,p,known,placed,short,same⟩

theorem linkAtCases (c : χ) (slot dir : Slot) (name : FileName) (e : Env χ) (m : Mount χ) :
    (∃ err, linkAt c slot dir name e m = (.error err,m)) ∨
    ∃ f up p v, m.file slot = some f ∧ m.dirAt dir = .ok (up,p) ∧
      m.vol.link f.entry p name = .ok v ∧ linkAt c slot dir name e m = (.ok (),{m with vol := v}) := by
  refine (syscallCases c _ e m).imp id ?_
  rintro ⟨a,m',_,done,same⟩
  split at done <;> try contradiction
  rename_i f known
  obtain ⟨⟨up,p⟩,at_,rest⟩ := exceptBind done
  obtain ⟨v,linked,last⟩ := exceptBind rest
  cases Except.ok.inj last
  exact ⟨f,up,p,v,known,at_,linked,same⟩

theorem linkInv {v w : Volume χ} {entry p name} (done : v.link entry p name = .ok w) :
    entry.isDir = false ∧ v.tree.links entry ≠ 0 ∧
      ∃ ok distinct, w = {v with tree := v.tree.add p name entry ok, distinct := distinct} := by
  unfold Volume.link at done
  split at done <;> try contradiction
  rename_i file
  split at done <;> try contradiction
  rename_i linked
  split at done <;> try contradiction
  split at done <;> try contradiction
  exact ⟨by simpa using file,linked,_,_,(Except.ok.inj done).symm⟩

theorem linkOk {v w : Volume χ} {entry p name} (done : v.link entry p name = .ok w) :
    entry.isDir = false ∧ (∃ q, v.tree.find q = some entry) ∧ w.nodes = v.nodes ∧ w.mount = v.mount ∧
      v.tree.find (p ++ [name]) = none ∧
      ∀ q, w.tree.find q = if q = p ++ [name] then some entry else v.tree.find q := by
  obtain ⟨file,linked,ok,_,rfl⟩ := linkInv done
  exact ⟨file,Tree.linkedAt linked,rfl,rfl,ok.2.1,Tree.findAdd ok⟩

theorem linkDev {v w : Volume χ} {entry p name} (done : v.link entry p name = .ok w) :
    w.dev = v.dev := by
  obtain ⟨_,_,_,_,rfl⟩ := linkInv done
  rfl

theorem removeInv {v w : Volume χ} {rmdir p} (done : v.remove rmdir p = .ok w) :
    ∃ entry, v.tree.find p = some entry ∧ entry.isDir = rmdir ∧
      ∃ ok distinct, w = {v with tree := v.tree.remove p ok, distinct := distinct} := by
  unfold Volume.remove at done
  split at done <;> try contradiction
  rename_i entry found
  split at done <;> try contradiction
  rename_i notFile
  split at done <;> try contradiction
  rename_i notDir
  split at done <;> try contradiction
  refine ⟨entry,found,?_,_,_,(Except.ok.inj done).symm⟩
  cases rmdir <;> cases kind : entry.isDir <;> simp_all

theorem removeDev {v w : Volume χ} {rmdir p} (done : v.remove rmdir p = .ok w) : w.dev = v.dev := by
  obtain ⟨_,_,_,_,_,rfl⟩ := removeInv done
  rfl

theorem removeOk {v w : Volume χ} {rmdir p} (done : v.remove rmdir p = .ok w) :
    w.nodes = v.nodes ∧ w.mount = v.mount ∧
      (∃ entry, v.tree.find p = some entry ∧ entry.isDir = rmdir) ∧
      ∀ q, w.tree.find q = if q = p then none else v.tree.find q := by
  obtain ⟨entry,found,isDir,ok,_,rfl⟩ := removeInv done
  exact ⟨rfl,rfl,⟨entry,found,isDir⟩,Tree.findRemove ok⟩

theorem removeSucceeds {v : Volume χ} {p entry} (found : v.tree.find p = some entry)
    (ok : v.tree.Removable p) : ∃ w, v.remove entry.isDir p = .ok w := by
  cases isDir : entry.isDir <;> simp [Volume.remove,found,isDir,ok]

theorem unlinkAtCases (c : χ) (dir : Slot) (name : FileName) (rmdir : Bool) (e : Env χ) (m : Mount χ) :
    (∃ err, unlinkAt c dir name rmdir e m = (.error err,m)) ∨
    ∃ up p v, m.dirAt dir = .ok (up,p) ∧ m.vol.remove rmdir (p ++ [name]) = .ok v ∧
      unlinkAt c dir name rmdir e m = (.ok (),{m with vol := v}) := by
  refine (syscallCases c _ e m).imp id ?_
  rintro ⟨a,m',_,done,same⟩
  obtain ⟨⟨up,p⟩,at_,rest⟩ := exceptBind done
  obtain ⟨v,removed,last⟩ := exceptBind rest
  cases Except.ok.inj last
  exact ⟨up,p,v,at_,removed,same⟩

theorem removeSame {v v' w : Volume χ} {rmdir p} (tree : w.tree = v.tree)
    (done : v.remove rmdir p = .ok v') : ∃ w', w.remove rmdir p = .ok w' := by
  obtain ⟨entry,found,rfl,ok,_⟩ := removeInv done
  exact removeSucceeds (tree.symm ▸ found) (tree.symm ▸ ok)

theorem unlinkAtSame {c : χ} {dir : Slot} {name rmdir e} {m m' w : Mount χ}
    (at_ : m'.dirAt dir = m.dirAt dir) (tree : m'.vol.tree = m.vol.tree)
    (ok : unlinkAt c dir name rmdir e m = (.ok (),w)) :
    ∃ w', unlinkAt c dir name rmdir e m' = (.ok (),w') := by
  rcases syscallCases c _ e m with ⟨err,same⟩ | ⟨a,u,quiet,done,same⟩
  · cases ok.symm.trans same
  · obtain ⟨⟨up,p⟩,here,rest⟩ := exceptBind done
    obtain ⟨v,removed,_⟩ := exceptBind rest
    obtain ⟨v',again⟩ := removeSame tree removed
    refine ⟨{m' with vol := v'},?_⟩
    unfold unlinkAt syscall
    rw [quiet]
    simp only [at_,here,again,bind,Except.bind]

theorem moveInv {v w : Volume χ} {old new} (done : v.move old new = .ok w) :
    ∃ ok distinct, w = {v with tree := v.tree.move old new ok, distinct := distinct} := by
  unfold Volume.move at done
  split at done <;> try contradiction
  exact ⟨_,_,(Except.ok.inj done).symm⟩

theorem moveOk {v w : Volume χ} {old new} (done : v.move old new = .ok w) :
    w.nodes = v.nodes ∧ w.mount = v.mount ∧ ¬ old <+: new ∧
      ∀ q, w.tree.find q = if new <+: q then v.tree.find (old ++ q.drop new.length)
        else if old <+: q then none else v.tree.find q := by
  obtain ⟨ok,_,rfl⟩ := moveInv done
  exact ⟨rfl,rfl,ok.2.2.1,Tree.findMove ok⟩

/- A rename of two names of one file does nothing; any other one is a move, once the new
name is free. -/
theorem renameInv {v w : Volume χ} {old new} (done : v.rename old new = .ok w) :
    w = v ∧ v.tree.find old = v.tree.find new ∨
      v.move old new = .ok w ∨ ∃ rmdir u, v.remove rmdir new = .ok u ∧ u.move old new = .ok w := by
  unfold Volume.rename at done
  split at done <;> try contradiction
  · exact .inr (.inl done)
  · rename_i entry target here there
    split at done
    · rename_i one
      exact .inl ⟨(Except.ok.inj done).symm,by rw [here,there,one]⟩
    · split at done <;> try contradiction
      split at done <;> try contradiction
      split at done <;> try contradiction
      obtain ⟨u,removed,moved⟩ := exceptBind done
      exact .inr (.inr ⟨_,u,removed,moved⟩)

theorem renameOk {v w : Volume χ} {old new} (done : v.rename old new = .ok w) :
    w = v ∧ v.tree.find old = v.tree.find new ∨
      w.nodes = v.nodes ∧ w.mount = v.mount ∧ ¬ old <+: new ∧
      ∀ q, w.tree.find q = if new <+: q then v.tree.find (old ++ q.drop new.length)
        else if old <+: q then none else v.tree.find q := by
  rcases renameInv done with same | moved | ⟨rmdir,u,removed,moved⟩
  · exact .inl same
  · exact .inr (moveOk moved)
  · obtain ⟨nodes1,mount1,_,find1⟩ := removeOk removed
    obtain ⟨nodes2,mount2,apart,find2⟩ := moveOk moved
    refine .inr ⟨nodes2.trans nodes1,mount2.trans mount1,apart,fun q => ?_⟩
    have below : ∀ tail, ¬ old ++ tail = new := fun tail same => apart ⟨tail,same⟩
    rw [find2]
    by_cases under : new <+: q
    · simp [under,find1,below]
    · have other : ¬ q = new := fun same => under (same ▸ List.prefix_rfl)
      simp [under,find1,other]

theorem moveDev {v w : Volume χ} {old new} (done : v.move old new = .ok w) : w.dev = v.dev := by
  obtain ⟨_,_,rfl⟩ := moveInv done
  rfl

theorem renameDev {v w : Volume χ} {old new} (done : v.rename old new = .ok w) : w.dev = v.dev := by
  rcases renameInv done with ⟨rfl,_⟩ | moved | ⟨rmdir,u,removed,moved⟩
  · rfl
  · exact moveDev moved
  · exact (moveDev moved).trans (removeDev removed)

theorem renameAtCases (c : χ) (dir : Slot) (name : FileName) (newdir : Slot) (newname : FileName)
    (e : Env χ) (m : Mount χ) : (∃ err, renameAt c dir name newdir newname e m = (.error err,m)) ∨
    ∃ up p up' q v, m.dirAt dir = .ok (up,p) ∧ m.dirAt newdir = .ok (up',q) ∧
      m.vol.rename (p ++ [name]) (q ++ [newname]) = .ok v ∧
      renameAt c dir name newdir newname e m = (.ok (),{m with vol := v}) := by
  refine (syscallCases c _ e m).imp id ?_
  rintro ⟨a,m',_,done,same⟩
  obtain ⟨⟨up,p⟩,at_,rest⟩ := exceptBind done
  obtain ⟨⟨up',q⟩,there,rest⟩ := exceptBind rest
  obtain ⟨v,renamed,last⟩ := exceptBind rest
  cases Except.ok.inj last
  exact ⟨up,p,up',q,v,at_,there,renamed,same⟩

def pieces : Bytes → List Bytes
  | [] => [[]]
  | b::rest => if b = 47 then [] :: pieces rest
      else match pieces rest with
        | [] => [[b]]
        | first::more => (b::first) :: more

def components (b : Bytes) : List Bytes := (pieces b).filter (· ≠ [])

theorem piecesName {name tail first : Bytes} {more} (plain : 47 ∉ name)
    (rest : pieces tail = first :: more) : pieces (name ++ tail) = (name ++ first) :: more := by
  induction name with
  | nil => exact rest
  | cons b name ih =>
    simp only [List.mem_cons,not_or] at plain
    have apart : ¬ b = 47 := fun same => plain.1 same.symm
    simp [pieces,apart,ih plain.2]

theorem componentsSlash (b : Bytes) : components (47 :: b) = components b := by
  simp [components,pieces]

theorem componentsRender (name : FileName) (p : List FileName) :
    components (name.val ++ render p) = name.val :: p.map Subtype.val := by
  induction p generalizing name with
  | nil =>
    have one : pieces (name.val ++ []) = [name.val ++ []] := piecesName name.2.2.1 rfl
    rw [components,render,one]
    simp [name.2.1]
  | cons next p ih =>
    have split_ : pieces (name.val ++ render (next::p)) =
        (name.val ++ []) :: pieces (next.val ++ render p) :=
      piecesName name.2.2.1 (by simp [render,pieces])
    have rest := ih next
    unfold components at rest ⊢
    rw [split_,List.filter_cons_of_pos (by simpa using name.2.1),rest]
    simp

theorem componentsRelative (mount p : List FileName) (below : p ≠ []) :
    components ((absolute (mount ++ p)).drop (absolute mount).length) = p.map Subtype.val := by
  have renderAppend : ∀ q : List FileName, render (q ++ p) = render q ++ render p := by
    intro q
    induction q with
    | nil => rfl
    | cons n q ih => simp [render,ih]
  have long : absolute (mount ++ p) = render mount ++ render p := by
    rw [absolute,if_neg (by simp [below]),renderAppend]
  obtain ⟨name,rest,rfl⟩ := List.exists_cons_of_ne_nil below
  rw [long]
  by_cases top : mount = []
  · subst top
    simpa [absolute,render] using componentsRender name rest
  · rw [absolute,if_neg top,List.drop_left,render,componentsSlash]
    exact componentsRender name rest

theorem absolutePlain (p : List FileName) : 0 ∉ absolute p := by
  have plain : ∀ q : List FileName, 0 ∉ render q := by
    intro q
    induction q with
    | nil => simp [render]
    | cons name q ih => simp [render,name.2.2.2.1,ih]
  unfold absolute
  split
  · decide
  · exact plain p

structure Held (bound : Fd) (m m' : Mount χ) : Prop where
  next : m.next ≤ m'.next
  same : ∀ n, n < bound → m'.file (.fd n) = m.file (.fd n)

instance (bound : Fd) : IsPreorder (Mount χ) (Held bound) where
  refl _ := ⟨Nat.le_refl _,fun _ _ => rfl⟩
  trans _ _ _ one two := ⟨one.next.trans two.next,
    fun n below => (two.same n below).trans (one.same n below)⟩

theorem sameHeld {bound : Fd} {m m' : Mount χ} (opened : m'.opened = m.opened)
    (next : m'.next = m.next) : Held bound m m' := by
  refine ⟨Nat.le_of_eq next.symm,fun n _ => ?_⟩
  simp [Mount.file,opened]

theorem installHeld {bound : Fd} {m : Mount χ} (new : bound ≤ m.next) (f : File) :
    Held bound m (m.install f) := by
  refine ⟨Nat.le_succ _,fun n below => ?_⟩
  have other : ¬ m.next = n := Nat.ne_of_gt (Nat.lt_of_lt_of_le below new)
  simp [Mount.file,Mount.install,other]

theorem closeOther {n k : Fd} (other : k ≠ n) (e : Env χ) (m : Mount χ) :
    (close (.fd n) e m).2.file (.fd k) = m.file (.fd k) := by
  unfold close
  simp only
  split
  · simp only [Mount.file,Mount.drop,List.find?_filter]
    congr 2
    funext o
    by_cases here : o.1 = k
    · simp [here,other]
    · simp [here]
  · rfl

theorem closeFile {slot other : Slot} (apart : other ≠ slot) (e : Env χ) (m : Mount χ) :
    (close slot e m).2.file other = m.file other := by
  cases slot with
  | closed => rfl
  | enoent => rfl
  | fd n =>
    cases other with
    | closed => rfl
    | enoent => rfl
    | fd k => exact closeOther (fun same => apart (by rw [same])) e m

theorem closeHeld {bound n : Fd} (new : bound ≤ n) (e : Env χ) (m : Mount χ) :
    Held bound m (close (.fd n) e m).2 :=
  ⟨(closeQuiet (.fd n) e m).ages.next,
    fun _ below => closeOther (Nat.ne_of_lt (Nat.lt_of_lt_of_le below new)) e m⟩

theorem openedHeld (m : Mount χ) (f : File) (e : Env χ) :
    Held m.next m (close (.fd m.next) e (m.install f)).2 :=
  trans_of (Held m.next) (installHeld (Nat.le_refl _) f) (closeHeld (Nat.le_refl _) e _)

theorem heldLess {a b : Fd} {m m' : Mount χ} (less : a ≤ b) (held : Held b m m') : Held a m m' :=
  ⟨held.next,fun n below => held.same n (Nat.lt_of_lt_of_le below less)⟩

theorem clearedFiles (flags : Flags) (m : Mount χ) (entry : Entry) :
    (cleared flags m entry).opened = m.opened ∧ (cleared flags m entry).next = m.next := by
  unfold cleared
  split <;> exact ⟨rfl,rfl⟩

theorem openPathHeld (c : χ) (dir : Slot) (name : FileName) (e : Env χ) (m : Mount χ) :
    Held m.next m (openPath c dir name e m).2 := by
  rcases openPathCases c dir name e m with ⟨err,same⟩ | ⟨up,p,entry,_,_,same⟩
  · rw [same]
    exact refl_of (Held m.next) m
  · rw [same]
    exact installHeld (Nat.le_refl _) _

theorem openCreateHeld (c : χ) (dir : Slot) (name : FileName) (flags : Flags) (e : Env χ)
    (m : Mount χ) : Held m.next m (openCreate c dir name flags e m).2 := by
  rcases openCreateCases c dir name flags e m with ⟨err,same⟩ | ⟨up,p,entry,_,_,_,same⟩ |
    ⟨up,p,v,_,_,same⟩
  · rw [same]
    exact refl_of (Held m.next) m
  · rw [same]
    obtain ⟨opened,next⟩ := clearedFiles flags m entry
    exact trans_of (Held m.next) (sameHeld opened next) (installHeld (Nat.le_of_eq next.symm) _)
  · rw [same]
    let made : Mount χ := {m with vol := v}
    have below : m.next ≤ made.next := Nat.le_refl _
    have kept : Held m.next m made := sameHeld rfl rfl
    exact trans_of (Held m.next) kept (installHeld below _)

theorem heldFile {m m' : Mount χ} {slot f} (held : Held m.next m m') (known : m.file slot = some f) :
    m'.file slot = some f := by
  obtain ⟨n,rfl⟩ := fdOfFile known
  rw [held.same n (fileOld known)]
  exact known

theorem dirAtSame {m m' : Mount χ} {slot} (file : m'.file slot = m.file slot)
    (tree : m'.vol.tree = m.vol.tree) : m'.dirAt slot = m.dirAt slot := by
  simp only [Mount.dirAt,file,tree]

theorem heldDir {m m' : Mount χ} {slot up p} (held : Held m.next m m')
    (stays : m'.vol.tree.find p = some up) (at_ : m.dirAt slot = .ok (up,p)) :
    m'.dirAt slot = .ok (up,p) := by
  obtain ⟨f,known,rfl,isDir,_⟩ := dirAtFile at_
  simp [Mount.dirAt,heldFile held known,isDir,Tree.pathOfDir stays isDir]

theorem openCreateOk {c : χ} {dir : Slot} {name flags e} {m : Mount χ} {fd m'}
    (ok : openCreate c dir name flags e m = (.ok fd,m')) :
    ∃ up p f, m.dirAt dir = .ok (up,p) ∧ m'.dirAt dir = .ok (up,p) ∧ m'.file fd = some f ∧
      f.dentry = some (up,name) ∧ f.entry.kind = .reg ∧
      m'.vol.tree.find (p ++ [name]) = some f.entry ∧
      ((m.vol.tree.find (p ++ [name]) = some f.entry ∧ ∀ attr, Alike attr m m') ∨
        ∃ v, m.vol.make c f.entry.ino .reg [] p name = .ok v ∧ Quiet {m with vol := v} m') := by
  have held := openCreateHeld c dir name flags e m
  have grows := openCreateGrows c dir name flags e m
  rw [ok] at held grows
  rcases openCreateCases c dir name flags e m with ⟨err,same⟩ |
    ⟨up,p,entry,at_,found,kind,same⟩ | ⟨up,p,v,at_,made,same⟩
  · rw [ok] at same
    cases same
  · rw [ok] at same
    cases same
    obtain ⟨_,_,_,_,above⟩ := dirAtFile at_
    refine ⟨up,p,⟨entry,some (up,name),flags.access⟩,at_,heldDir held (grows.kept above) at_,?_,rfl,
      kind,grows.kept found,Or.inl ⟨found,fun attr => ?_⟩⟩
    · rw [← (clearedFiles flags m entry).2]
      exact fileInstall _ _
    · exact trans_of (Alike attr) (clearedAlike flags m entry attr) ((installQuiet _ _).alike attr)
  · rw [ok] at same
    cases same
    obtain ⟨_,_,_,_,above⟩ := dirAtFile at_
    let m1 : Mount χ := {m with vol := v}
    let f : File := ⟨⟨e.ino c,.reg⟩,some (up,name),flags.access⟩
    obtain ⟨_,placed,tree,_⟩ := makeOk made
    have here : v.tree.find (p ++ [name]) = some f.entry := by simp [tree,Tree.findAdd,f]
    exact ⟨up,p,f,at_,heldDir held (grows.kept above) at_,fileInstall m1 f,rfl,rfl,here,
      Or.inr ⟨v,made,installQuiet m1 f⟩⟩

end F3.Lib.Posix
