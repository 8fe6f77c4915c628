import F3.Lib.Posix

/-! What calls do, one lemma a call, and what they leave alone. A quiet call touches
descriptors only. A growing one may add names and files and change contents, but every
name stays where it is and keeps the attributes of its file. -/
namespace F3.Lib.Posix
open Lib (Bytes Tree Act)
variable {χ α : Type}

structure Ages (m m' : Mount χ) : Prop where
  next : m.next ≤ m'.next
  old : ∀ {n f}, n < m.next → m'.file (.fd n) = some f → m.file (.fd n) = some f

instance : IsPreorder (Mount χ) Ages where
  refl _ := ⟨Nat.le_refl _,fun _ known => known⟩
  trans _ _ _ one two := ⟨one.next.trans two.next,
    fun below known => one.old below (two.old (Nat.lt_of_lt_of_le below one.next) known)⟩

structure Quiet (m m' : Mount χ) : Prop where
  tree : m'.vol.tree = m.vol.tree
  nodes : m'.vol.nodes = m.vol.nodes
  dev : m'.vol.dev = m.vol.dev
  mount : m'.vol.mount = m.vol.mount
  ages : Ages m m'

instance : IsPreorder (Mount χ) Quiet where
  refl m := ⟨rfl,rfl,rfl,rfl,refl_of Ages m⟩
  trans _ _ _ one two := ⟨two.tree.trans one.tree,two.nodes.trans one.nodes,two.dev.trans one.dev,
    two.mount.trans one.mount,trans_of Ages one.ages two.ages⟩

structure Grows (m m' : Mount χ) : Prop where
  kept : ∀ {p e}, m.vol.tree.find p = some e → m'.vol.tree.find p = some e
  xattr : ∀ {p e}, m.vol.tree.find p = some e →
    (m'.vol.nodes e.ino).xattr = (m.vol.nodes e.ino).xattr
  origin : ∀ {p e}, m.vol.tree.find p = some e →
    (m'.vol.nodes e.ino).origin = (m.vol.nodes e.ino).origin
  dev : m'.vol.dev = m.vol.dev
  mount : m'.vol.mount = m.vol.mount
  ages : Ages m m'

theorem Quiet.grows {m m' : Mount χ} (quiet : Quiet m m') : Grows m m' := by
  refine ⟨fun found => ?_,fun found => ?_,fun found => ?_,quiet.dev,quiet.mount,quiet.ages⟩
  · rw [quiet.tree]
    exact found
  · rw [quiet.nodes]
  · rw [quiet.nodes]

instance : IsPreorder (Mount χ) Grows where
  refl m := ⟨fun found => found,fun _ => rfl,fun _ => rfl,rfl,rfl,refl_of Ages m⟩
  trans _ _ _ one two := ⟨fun found => two.kept (one.kept found),
    fun found => (two.xattr (one.kept found)).trans (one.xattr found),
    fun found => (two.origin (one.kept found)).trans (one.origin found),
    two.dev.trans one.dev,two.mount.trans one.mount,trans_of Ages one.ages two.ages⟩

theorem keepsGrows {p : Sys χ α} (quiet : Act.Keeps Quiet p) : Act.Keeps Grows p :=
  fun e m => (quiet e m).grows

theorem exceptBind {ε α β : Type} {x : Except ε α} {f : α → Except ε β} {b : β}
    (ok : (x >>= f) = .ok b) : ∃ a, x = .ok a ∧ f a = .ok b := by
  cases x with
  | error e => contradiction
  | ok a => exact ⟨a,rfl,ok⟩

theorem fileOpened {m : Mount χ} {n f} (known : m.file (.fd n) = some f) : (n,f) ∈ m.opened := by
  obtain ⟨o,found,same⟩ := Option.map_eq_some_iff.mp known
  have number : o.1 = n := by simpa using List.find?_some found
  have mem := List.mem_of_find?_eq_some found
  rw [← number,← same]
  exact mem

theorem fileOld {m : Mount χ} {n f} (known : m.file (.fd n) = some f) : n < m.next :=
  m.fresh _ (fileOpened known)

theorem fdOfFile {m : Mount χ} {slot f} (known : m.file slot = some f) : ∃ n, slot = .fd n := by
  cases slot with
  | fd n => exact ⟨n,rfl⟩
  | closed => simp [Mount.file] at known
  | enoent => simp [Mount.file] at known

theorem dirAtFile {m : Mount χ} {slot up p} (at_ : m.dirAt slot = .ok (up,p)) :
    ∃ f, m.file slot = some f ∧ f.entry = up ∧ up.isDir = true ∧ m.vol.tree.find p = some up := by
  unfold Mount.dirAt at at_
  split at at_ <;> try contradiction
  rename_i f known
  split at at_ <;> try contradiction
  rename_i isDir
  split at at_ <;> try contradiction
  rename_i q placed
  cases Except.ok.inj at_
  exact ⟨f,known,rfl,isDir,Tree.pathOfFind placed⟩

theorem installQuiet (m : Mount χ) (f : File) : Quiet m (m.install f) := by
  refine ⟨rfl,rfl,rfl,rfl,Nat.le_succ _,fun {n g} below known => ?_⟩
  have other : ¬ m.next = n := Nat.ne_of_gt below
  simpa [Mount.file,Mount.install,other] using known

theorem dropQuiet (m : Mount χ) (n : Fd) (ino : Ino) : Quiet m (m.drop n ino) := by
  refine ⟨rfl,rfl,rfl,rfl,Nat.le_refl _,fun {k g} _ known => ?_⟩
  simp only [Mount.file,Mount.drop,List.find?_filter] at known ⊢
  by_cases hit : k = n
  · obtain ⟨o,found,_⟩ := Option.map_eq_some_iff.mp known
    have both := List.find?_some found
    simp [hit] at both
  · have same : (fun o : Fd × File => decide (decide (o.1 ≠ n) = true ∧ decide (o.1 = k) = true)) =
        fun o => decide (o.1 = k) := by
      funext o
      by_cases here : o.1 = k
      · simp [here,hit]
      · simp [here]
    rwa [same] at known

theorem dirAtGrows {m m' : Mount χ} {slot x y} (grows : Grows m m') (before : m.dirAt slot = .ok x)
    (after : m'.dirAt slot = .ok y) : y = x := by
  obtain ⟨f,known,same,isDir,found⟩ := dirAtFile before
  obtain ⟨g,now,same',_⟩ := dirAtFile after
  obtain ⟨n,rfl⟩ := fdOfFile known
  cases Option.some.inj (known.symm.trans (grows.ages.old (fileOld known) now))
  rw [← same] at isDir found
  simp only [Mount.dirAt,now,isDir,if_true,Tree.pathOfDir (grows.kept found) isDir] at after
  exact (Except.ok.inj after).symm.trans (Prod.ext same rfl)

theorem openPathCases (c : χ) (dir : Slot) (name : FileName) (e : Env χ) (m : Mount χ) :
    (∃ err, openPath c dir name e m = (.error err,m)) ∨
    ∃ up p entry, m.dirAt dir = .ok (up,p) ∧ m.vol.tree.find (p ++ [name]) = some entry ∧
      openPath c dir name e m = (.ok (.fd m.next),m.install ⟨entry,some (up,name),.path⟩) := by
  refine (syscallCases c _ e m).imp id ?_
  rintro ⟨a,m',_,done,same⟩
  obtain ⟨⟨up,p⟩,at_,rest⟩ := exceptBind done
  simp only at rest
  split at rest <;> try contradiction
  rename_i entry found
  cases Except.ok.inj rest
  exact ⟨up,p,entry,at_,found,same⟩

theorem fstatCases (c : χ) (slot : Slot) (e : Env χ) (m : Mount χ) :
    (∃ err, fstat c slot e m = (.error err,m)) ∨
    ∃ f, m.file slot = some f ∧ fstat c slot e m = (.ok (m.vol.stat f.entry),m) := by
  refine (syscallCases c _ e m).imp id ?_
  rintro ⟨a,m',_,done,same⟩
  split at done <;> try contradiction
  rename_i f known
  cases Except.ok.inj done
  exact ⟨f,known,same⟩

def cleared (flags : Flags) (m : Mount χ) (entry : Entry) : Mount χ :=
  if entry.kind = .reg ∧ flags.trunc = true then m.setContent entry.ino [] else m

theorem openEntryOk {m : Mount χ} {flags entry dentry r}
    (done : openEntry m flags entry dentry = .ok r) :
    (entry.kind = .dir ∨ entry.kind = .reg) ∧
      r = (.fd m.next,(cleared flags m entry).install ⟨entry,dentry,flags.access⟩) := by
  unfold openEntry at done
  split at done <;> try contradiction
  · rename_i kind
    split at done <;> try contradiction
    rename_i reads
    cases Except.ok.inj done
    exact ⟨Or.inl kind,by simp [cleared,kind,reads]⟩
  · rename_i kind
    cases Except.ok.inj done
    refine ⟨Or.inr kind,?_⟩
    by_cases trunc : flags.trunc = true
    · simp [cleared,kind,trunc,Mount.setContent]
    · simp [cleared,kind,trunc]

theorem reopenCases (c : χ) (slot : Slot) (flags : Flags) (e : Env χ) (m : Mount χ) :
    (∃ err, reopen c slot flags e m = (.error err,m)) ∨
    ∃ f, m.file slot = some f ∧ reopen c slot flags e m =
      (.ok (.fd m.next),(cleared flags m f.entry).install ⟨f.entry,f.dentry,flags.access⟩) := by
  refine (syscallCases c _ e m).imp id ?_
  rintro ⟨a,m',_,done,same⟩
  split at done <;> try contradiction
  rename_i f known
  cases (openEntryOk done).2
  exact ⟨f,known,same⟩

theorem makeInv {v w : Volume χ} {origin ino kind content p name}
    (done : v.make origin ino kind content p name = .ok w) :
    v.Free ino ∧ ∃ ok distinct, w = {v.setNode ino ⟨content,fun _ => none,origin⟩ with
      tree := v.tree.add p name ⟨ino,kind⟩ ok, distinct := distinct} := by
  unfold Volume.make at done
  split at done <;> try contradiction
  split at done <;> try contradiction
  rename_i free
  split at done <;> try contradiction
  exact ⟨free,_,_,(Except.ok.inj done).symm⟩

theorem makeOk {v w : Volume χ} {origin ino kind content p name}
    (done : v.make origin ino kind content p name = .ok w) :
    v.Free ino ∧ ∃ ok : v.tree.Addable p name ⟨ino,kind⟩,
      w.tree = v.tree.add p name ⟨ino,kind⟩ ok ∧
      w.nodes = (v.setNode ino ⟨content,fun _ => none,origin⟩).nodes ∧
      w.dev = v.dev ∧ w.mount = v.mount := by
  obtain ⟨free,ok,_,rfl⟩ := makeInv done
  exact ⟨free,ok,rfl,rfl,rfl,rfl⟩

theorem openCreateCases (c : χ) (dir : Slot) (name : FileName) (flags : Flags) (e : Env χ)
    (m : Mount χ) : (∃ err, openCreate c dir name flags e m = (.error err,m)) ∨
    (∃ up p entry, m.dirAt dir = .ok (up,p) ∧ m.vol.tree.find (p ++ [name]) = some entry ∧
      entry.kind = .reg ∧ openCreate c dir name flags e m = (.ok (.fd m.next),
        (cleared flags m entry).install ⟨entry,some (up,name),flags.access⟩)) ∨
    ∃ up p v, m.dirAt dir = .ok (up,p) ∧ m.vol.make c (e.ino c) .reg [] p name = .ok v ∧
      openCreate c dir name flags e m = (.ok (.fd m.next),
        Mount.install {m with vol := v} ⟨⟨e.ino c,.reg⟩,some (up,name),flags.access⟩) := by
  refine (syscallCases c _ e m).imp id ?_
  rintro ⟨a,m',_,done,same⟩
  obtain ⟨⟨up,p⟩,at_,rest⟩ := exceptBind done
  simp only at rest
  split at rest
  · rename_i entry found
    split at rest <;> try contradiction
    split at rest <;> try contradiction
    rename_i file
    obtain ⟨kind,here⟩ := openEntryOk rest
    cases here
    have regular := kind.resolve_left fun dir => file (by simp [Entry.isDir,dir])
    exact Or.inl ⟨up,p,entry,at_,found,regular,same⟩
  · obtain ⟨v,made,last⟩ := exceptBind rest
    cases Except.ok.inj last
    exact Or.inr ⟨up,p,v,at_,made,same⟩

theorem makeAtCases (c : χ) (dir : Slot) (name : FileName) (kind : Kind) (content : Bytes)
    (e : Env χ) (m : Mount χ) : (∃ err, makeAt c dir name kind content e m = (.error err,m)) ∨
    ∃ up p v, m.dirAt dir = .ok (up,p) ∧ m.vol.make c (e.ino c) kind content p name = .ok v ∧
      makeAt c dir name kind content e m = (.ok (),{m with vol := v}) := by
  refine (syscallCases c _ e m).imp id ?_
  rintro ⟨a,m',_,done,same⟩
  obtain ⟨⟨up,p⟩,at_,rest⟩ := exceptBind done
  obtain ⟨v,made,last⟩ := exceptBind rest
  cases Except.ok.inj last
  exact ⟨up,p,v,at_,made,same⟩

theorem makeAtOk {c : χ} {dir : Slot} {name kind content e} {m m' : Mount χ}
    (ok : makeAt c dir name kind content e m = (.ok (),m')) : ∃ up p v,
      m.dirAt dir = .ok (up,p) ∧ m.vol.make c (e.ino c) kind content p name = .ok v ∧
      m' = {m with vol := v} := by
  rcases makeAtCases c dir name kind content e m with ⟨err,same⟩ | ⟨up,p,v,at_,made,same⟩
  · rw [ok] at same
    cases same
  · rw [ok] at same
    exact ⟨up,p,v,at_,made,(Prod.mk.inj same).2⟩

theorem fullFileOk {m : Mount χ} {slot f} (full : fullFile m slot = .ok f) :
    m.file slot = some f := by
  unfold fullFile at full
  split at full <;> try contradiction
  rename_i g known
  split at full <;> try contradiction
  simp only [attrFile,known] at full
  split at full <;> try contradiction
  all_goals
    cases Except.ok.inj full
    exact known

theorem fgetxattrCases (c : χ) (slot : Slot) (name : Bytes) (size : Nat) (e : Env χ) (m : Mount χ) :
    (∃ err, fgetxattr c slot name size e m = (.error err,m)) ∨
    ∃ f value, m.file slot = some f ∧ (m.vol.nodes f.entry.ino).xattr name = some value ∧
      value.length ≤ size ∧ fgetxattr c slot name size e m = (.ok value,m) := by
  refine (syscallCases c _ e m).imp id ?_
  rintro ⟨a,m',_,done,same⟩
  obtain ⟨f,full,rest⟩ := exceptBind done
  split at rest <;> try contradiction
  rename_i value present
  split at rest <;> try contradiction
  rename_i short
  cases Except.ok.inj rest
  exact ⟨f,_,fullFileOk full,present,short,same⟩

theorem fileInstall (m : Mount χ) (f : File) : (m.install f).file (.fd m.next) = some f := by
  simp [Mount.file,Mount.install]

theorem closeQuiet (slot : Slot) : Act.Keeps Quiet (close slot : Sys χ Unit) := by
  intro e m
  unfold close
  split
  · split
    · exact dropQuiet m _ _
    · exact ⟨rfl,rfl,rfl,rfl,⟨Nat.le_refl _,fun _ known => known⟩⟩
  · exact refl_of Quiet m

theorem openPathQuiet (c : χ) (dir : Slot) (name : FileName) :
    Act.Keeps Quiet (openPath c dir name) := by
  intro e m
  rcases openPathCases c dir name e m with ⟨err,same⟩ | ⟨up,p,entry,_,_,same⟩
  · rw [same]
    exact refl_of Quiet m
  · rw [same]
    exact installQuiet m _

theorem reopenQuiet (c : χ) (slot : Slot) (access : Access) :
    Act.Keeps Quiet (reopen c slot ⟨access,false,false⟩) := by
  intro e m
  rcases reopenCases c slot ⟨access,false,false⟩ e m with ⟨err,same⟩ | ⟨f,_,same⟩
  · rw [same]
    exact refl_of Quiet m
  · rw [same]
    simp only [cleared,Bool.false_eq_true,and_false,if_false]
    exact installQuiet m _

theorem fstatState (c : χ) (slot : Slot) (e : Env χ) (m : Mount χ) : (fstat c slot e m).2 = m := by
  rcases fstatCases c slot e m with ⟨err,same⟩ | ⟨f,_,same⟩ <;> rw [same]

theorem fstatQuiet (c : χ) (slot : Slot) : Act.Keeps Quiet (fstat c slot) := by
  intro e m
  rw [fstatState]
  exact refl_of Quiet m

theorem fgetxattrState (c : χ) (slot : Slot) (name : Bytes) (size : Nat) (e : Env χ) (m : Mount χ) :
    (fgetxattr c slot name size e m).2 = m := by
  rcases fgetxattrCases c slot name size e m with ⟨err,same⟩ | ⟨f,value,_,_,_,same⟩ <;> rw [same]

theorem fgetxattrQuiet (c : χ) (slot : Slot) (name : Bytes) (size : Nat) :
    Act.Keeps Quiet (fgetxattr c slot name size) := by
  intro e m
  rw [fgetxattrState]
  exact refl_of Quiet m

theorem setContentGrows (m : Mount χ) (ino : Ino) (content : Bytes) :
    Grows m (m.setContent ino content) := by
  have same : ∀ i, ((m.setContent ino content).vol.nodes i).xattr = (m.vol.nodes i).xattr ∧
      ((m.setContent ino content).vol.nodes i).origin = (m.vol.nodes i).origin := by
    intro i
    by_cases here : i = ino
    · simp [Mount.setContent,Volume.setNode,here]
    · simp [Mount.setContent,Volume.setNode,here]
  exact ⟨fun found => found,fun _ => (same _).1,fun _ => (same _).2,rfl,rfl,
    Nat.le_refl _,fun _ known => known⟩

theorem clearedGrows (flags : Flags) (m : Mount χ) (entry : Entry) : Grows m (cleared flags m entry) := by
  unfold cleared
  split
  · exact setContentGrows m entry.ino []
  · exact refl_of Grows m

theorem makeGrows {m : Mount χ} {v : Volume χ} {origin ino kind content p name}
    (done : m.vol.make origin ino kind content p name = .ok v) : Grows m {m with vol := v} := by
  obtain ⟨free,ok,tree,nodes,dev,mount⟩ := makeOk done
  have other : ∀ {q e}, m.vol.tree.find q = some e → e.ino ≠ ino :=
    fun found => free.2 _ (Tree.foundMem.mp found)
  refine ⟨fun {q e} found => ?_,fun found => ?_,fun found => ?_,dev,mount,
    Nat.le_refl _,fun _ known => known⟩
  · have apart : q ≠ p ++ [name] := by
      rintro rfl
      exact absurd found (by simp [ok.2.1])
    simpa [tree,Tree.findAdd,apart] using found
  · simp [nodes,Volume.setNode,other found]
  · simp [nodes,Volume.setNode,other found]

theorem openCreateGrows (c : χ) (dir : Slot) (name : FileName) (flags : Flags) :
    Act.Keeps Grows (openCreate c dir name flags) := by
  intro e m
  rcases openCreateCases c dir name flags e m with ⟨err,same⟩ | ⟨up,p,entry,_,_,_,same⟩ |
    ⟨up,p,v,_,made,same⟩
  · rw [same]
    exact refl_of Grows m
  · rw [same]
    exact trans_of Grows (clearedGrows flags m entry) (installQuiet _ _).grows
  · rw [same]
    exact trans_of Grows (makeGrows made) (installQuiet _ _).grows

theorem makeAtGrows (c : χ) (dir : Slot) (name : FileName) (kind : Kind) (content : Bytes) :
    Act.Keeps Grows (makeAt c dir name kind content) := by
  intro e m
  rcases makeAtCases c dir name kind content e m with ⟨err,same⟩ | ⟨up,p,v,_,made,same⟩
  · rw [same]
    exact refl_of Grows m
  · rw [same]
    exact makeGrows made

end F3.Lib.Posix
