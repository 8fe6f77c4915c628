import F3.Driver
import F3.Lib.PosixFrame

/-! What do_lookup does: nothing on the shared tree, at most new names in the ID tree,
and one cell of the inode table, which it counts or builds. -/
namespace F3.Driver
open Lib (Bytes Arena Cell Prog Act)
open Lib.Prog (keepsBind keepsPure keepsIte)
open Lib.Posix

@[simp] theorem setMountInodes (d : State) (side : Side) (m : Mount Call) :
    (d.setMount side m).inodes = d.inodes := by cases side <;> rfl
@[simp] theorem setMountInode (d : State) (side : Side) (m : Mount Call) (ref : Ref) :
    (d.setMount side m).inode ref = d.inode ref := by cases side <;> cases ref <;> rfl

@[simp] theorem setMountMount (d : State) (side : Side) (m : Mount Call) :
    (d.setMount side m).mount side = m := by cases side <;> rfl
@[simp] theorem setMountTwice (d : State) (side : Side) (m n : Mount Call) :
    (d.setMount side m).setMount side n = d.setMount side n := by cases side <;> rfl

theorem getInodeSome {ref e} {d : State} {i d'} (ok : getInode ref e d = some (i,d')) :
    d' = d ∧ d.inode ref = some i ∧ (ref ≠ .root → i.fd ≠ .closed) := by
  unfold getInode at ok
  split at ok <;> try contradiction
  rename_i j known
  split at ok <;> try contradiction
  rename_i filled
  cases Option.some.inj ok
  exact ⟨rfl,known,fun ne closed => filled ⟨ne,closed⟩⟩

theorem getInodeEq {ref} {d : State} {i} (e : Env Call) (known : d.inode ref = some i)
    (filled : ref ≠ .root → i.fd ≠ .closed) : getInode ref e d = some (i,d) := by
  have open_ : ¬ (ref ≠ .root ∧ i.fd = .closed) := fun h => filled h.1 h.2
  simp only [getInode,known,if_neg open_]

theorem sysSome {α : Type} {side : Side} {p : Sys Call α} {e} {d : State} {a d'}
    (ok : sys side p e d = some (a,d')) :
    a = (p e (d.mount side)).1 ∧ d' = d.setMount side (p e (d.mount side)).2 := by
  cases Option.some.inj ok
  exact ⟨rfl,rfl⟩

theorem f3IsIdQuiet (caller : Caller) (fd : Slot) : Act.Keeps Quiet (f3IsId caller fd) := by
  refine Act.keepsBind (reopenQuiet _ fd .read) fun r => ?_
  cases r with
  | error err => exact Act.keepsPure _
  | ok newfd =>
    exact Act.keepsBind (fgetxattrQuiet _ newfd f3Id 10) fun _ =>
      Act.keepsBind (closeQuiet newfd) fun _ => Act.keepsPure _

theorem f3GetAttrQuiet (attr : Bytes) (size : Nat) (fd : Slot) :
    Act.Keeps Quiet (f3GetAttr attr size fd) := by
  refine Act.keepsBind (reopenQuiet _ fd .read) fun r => ?_
  cases r with
  | error err => exact Act.keepsPure _
  | ok newfd =>
    exact Act.keepsBind (fgetxattrQuiet _ newfd attr size) fun _ =>
      Act.keepsBind (closeQuiet newfd) fun _ => Act.keepsPure _

theorem f3GetSizeXattrQuiet (fd : Slot) : Act.Keeps Quiet (f3GetSizeXattr fd) :=
  Act.keepsBind (f3GetAttrQuiet f3Size 23 fd) fun _ => Act.keepsPure _

theorem openIdCopyKeeps {rel : Mount Call → Mount Call → Prop} [IsPreorder (Mount Call) rel] {idParent : Slot}
    {name : FileName} (opens : ∀ c, Act.Keeps rel (openPath c idParent name))
    (makes : ∀ c, Act.Keeps rel (makeAt c idParent name .dir []))
    (creates : ∀ c, Act.Keeps rel (openCreate c idParent name ⟨.read,false,false⟩))
    (closes : ∀ slot, Act.Keeps rel (close slot)) (kind : Kind) : Act.Keeps rel (openIdCopy idParent name kind) := by
  refine Act.keepsBind (opens _) fun opened => ?_
  unfold makeIdCopy
  split
  · exact Act.keepsPure _
  · split
    · exact Act.keepsBind (makes _) fun _ => Act.keepsBind (opens _) fun _ => Act.keepsPure _
    · exact Act.keepsBind (creates _) fun made => Act.keepsBind (closes _) fun _ =>
        Act.keepsBind (opens _) fun _ => Act.keepsPure _
  · exact Act.keepsPure _

theorem openIdCopyGrows (idParent : Slot) (name : FileName) (kind : Kind) :
    Act.Keeps Grows (openIdCopy idParent name kind) :=
  openIdCopyKeeps (fun c => keepsGrows (openPathQuiet c idParent name))
    (fun c => makeAtGrows c idParent name .dir []) (fun c => openCreateGrows c idParent name _)
    (fun slot => keepsGrows (closeQuiet slot)) kind

structure Looks (d d' : State) : Prop where
  fs : Quiet d.fs d'.fs
  id : Grows d.id d'.id
  root : d'.root = d.root
  conf : d'.conf = d.conf
  pairs : d'.pairs = d.pairs

instance : IsPreorder State Looks where
  refl d := ⟨refl_of Quiet d.fs,refl_of Grows d.id,rfl,rfl,rfl⟩
  trans _ _ _ one two := ⟨trans_of Quiet one.fs two.fs,trans_of Grows one.id two.id,
    two.root.trans one.root,two.conf.trans one.conf,two.pairs.trans one.pairs⟩

theorem getInodeKeeps {rel : State → State → Prop} [IsPreorder State rel] (ref : Ref) :
    Prog.Keeps rel (getInode ref) := by
  intro e d i d' ok
  rw [(getInodeSome ok).1]
  exact refl_of rel d

theorem keepsAndThen {ε σ : Type} {rel : σ → σ → Prop} [IsPreorder σ rel] {α β : Type}
    {p : Prog ε σ (Except Errno α)} {f : α → Prog ε σ (Except Errno β)} (first : Prog.Keeps rel p)
    (rest : ∀ a, Prog.Keeps rel (f a)) : Prog.Keeps rel (andThen p f) := by
  refine keepsBind first fun r => ?_
  cases r with
  | error err => exact keepsPure _
  | ok a => exact rest a

/- What the steps of do_lookup keep: those that build an inode, and those that need the descriptor of the name. -/
structure KeepsBuild (rel : State → State → Prop) : Prop where
  sets : ∀ (addr : Nat) (f : Inode → Inode), Prog.Keeps rel (setInode (.node addr) f)
  sockets : ∀ (d : State) (n : Nat), rel d {d with sockets := n}
  asks : ∀ {caller slot}, Prog.Keeps rel (sys .fs (f3IsId caller slot))
  copies : ∀ {idParent name kind}, Prog.Keeps rel (sys .id (openIdCopy idParent name kind))

structure KeepsLookup (rel : State → State → Prop) (newfd : Slot) : Prop extends KeepsBuild rel where
  closes : Prog.Keeps rel (sys .fs (close newfd))
  stats : ∀ {c slot}, Prog.Keeps rel (sys .id (fstat c slot))
  sizes : ∀ {slot}, Prog.Keeps rel (sys .fs (f3GetSizeXattr slot))

section Walk
variable {rel : State → State → Prop} [IsPreorder State rel]

theorem KeepsBuild.isNew (build : KeepsBuild rel) (caller : Caller) (parent : Ref) (name : FileName) :
    Prog.Keeps rel (f3IsNewId caller parent name) :=
  keepsBind (getInodeKeeps parent) fun _ => keepsBind build.asks fun _ => keepsPure _

theorem KeepsBuild.attach (build : KeepsBuild rel) (idParent : Slot) (name : FileName) (kind : Kind) (addr : Nat) :
    Prog.Keeps rel (attachCopy idParent name kind addr) := by
  refine keepsBind build.copies fun copy => keepsBind (getInodeKeeps _) fun inode =>
    keepsBind (Prog.keepsOnlyIf (keepsBind ?_ fun _ => build.sets addr _)) fun _ => build.sets addr _
  intro e d a d' ok
  unfold setupConn at ok
  split at ok <;> cases Option.some.inj ok
  · exact refl_of rel d
  · exact build.sockets d _
  · exact build.sockets d _

theorem KeepsBuild.inode (build : KeepsBuild rel) (parent : Ref) (name : FileName) (addr : Nat) (newfd : Slot)
    (attr : Stat) : Prog.Keeps rel (buildInode parent name addr newfd attr) :=
  keepsBind (getInodeKeeps parent) fun _ => keepsBind (build.sets addr _) fun _ =>
    keepsBind (build.isNew .lookup parent name) fun _ =>
    keepsBind (Prog.keepsOnlyIf (build.sets addr _)) fun _ => build.attach _ name attr.kind addr

variable {newfd : Slot}

theorem KeepsLookup.enter (looks : KeepsLookup rel newfd) (parent : Ref) (name : FileName) (addr : Nat) (attr : Stat)
    (inode : Inode) : Prog.Keeps rel (enterInode parent name addr newfd attr inode) :=
  keepsIte (keepsBind (looks.sets addr _) fun _ => looks.closes) (looks.inode parent name addr newfd attr)

theorem KeepsLookup.answer (looks : KeepsLookup rel newfd) (addr generation : Nat) (attr : Stat) :
    Prog.Keeps rel (answerAttr addr generation newfd attr) := by
  refine keepsBind (getInodeKeeps _) fun inode => keepsIte (keepsBind looks.stats fun r => ?_) (keepsPure _)
  cases r with
  | error err => exact keepsBind looks.closes fun _ => keepsPure _
  | ok st => exact keepsBind looks.sizes fun _ => keepsBind (looks.sets addr _) fun _ => keepsPure _

theorem lookupKeeps {name : FileName} (looks : ∀ newfd, KeepsLookup rel newfd)
    (opens : ∀ {slot}, Prog.Keeps rel (sys .fs (openPath .lookupOpen slot name)))
    (stats : ∀ {slot}, Prog.Keeps rel (sys .fs (fstat .lookupStat slot)))
    (enters : ∀ (d : State) key, rel d {d with inodes := (d.inodes.enter key {}).1}) (parent : Ref) :
    Prog.Keeps rel (doLookup parent name) := by
  refine keepsBind (getInodeKeeps parent) fun dir => keepsBind opens fun r => ?_
  cases r with
  | error err => exact keepsPure _
  | ok newfd =>
    refine keepsBind stats fun r => ?_
    cases r with
    | error err => exact keepsBind (looks newfd).closes fun _ => keepsPure _
    | ok attr =>
      refine keepsBind Prog.keepsGet fun d => keepsIte (keepsPure _) (keepsIte (keepsPure _) ?_)
      refine keepsBind ?_ fun addr => keepsBind Prog.keepsGet fun known => ?_
      · intro e d a d' ok
        cases Option.some.inj ok
        exact enters d _
      · split
        · exact Prog.keepsAbort
        · exact keepsBind ((looks newfd).enter _ _ _ _ _) fun _ => (looks newfd).answer _ _ _

end Walk

theorem sysFsLooks {α : Type} {p : Sys Call α} (quiet : Act.Keeps Quiet p) :
    Prog.Keeps Looks (sys .fs p) := by
  intro e d a d' ok
  rw [(sysSome ok).2]
  exact ⟨quiet e d.fs,refl_of Grows d.id,rfl,rfl,rfl⟩

theorem sysIdLooks {α : Type} {p : Sys Call α} (grows : Act.Keeps Grows p) :
    Prog.Keeps Looks (sys .id p) := by
  intro e d a d' ok
  rw [(sysSome ok).2]
  exact ⟨refl_of Quiet d.fs,grows e d.id,rfl,rfl,rfl⟩

theorem looksLookup (newfd : Slot) : KeepsLookup Looks newfd where
  sets _ _ := Prog.keepsModify fun d => ⟨refl_of Quiet d.fs,refl_of Grows d.id,rfl,rfl,rfl⟩
  sockets d _ := ⟨refl_of Quiet d.fs,refl_of Grows d.id,rfl,rfl,rfl⟩
  asks := sysFsLooks (f3IsIdQuiet _ _)
  copies := sysIdLooks (openIdCopyGrows _ _ _)
  closes := sysFsLooks (closeQuiet newfd)
  stats := sysIdLooks (keepsGrows (fstatQuiet _ _))
  sizes := sysFsLooks (f3GetSizeXattrQuiet _)

theorem f3IsNewIdLooks (caller : Caller) (parent : Ref) (name : FileName) :
    Prog.Keeps Looks (f3IsNewId caller parent name) := (looksLookup .closed).isNew caller parent name

theorem lookupOpened {parent : Ref} {name : FileName} {e : Env Call} {d : State} {r d'}
    (ok : doLookup parent name e d = some (r,d')) : ∃ dir, d.inode parent = some dir ∧
      Looks {d with fs := (openPath .lookupOpen dir.fd name e d.fs).2} d' := by
  obtain ⟨dir,u,first,body⟩ := Prog.bindSome ok
  obtain ⟨rfl,known,_⟩ := getInodeSome first
  obtain ⟨opened,d1,call,rest⟩ := Prog.bindSome body
  refine ⟨dir,known,?_⟩
  have same : d1 = {u with fs := (openPath .lookupOpen dir.fd name e u.fs).2} := (sysSome call).2
  rw [← same]
  cases opened with
  | error err => exact keepsPure _ e d1 r d' rest
  | ok newfd =>
    refine keepsBind (sysFsLooks (fstatQuiet _ newfd)) (fun r => ?_) e d1 _ d' rest
    cases r with
    | error err => exact keepsBind (sysFsLooks (closeQuiet newfd)) fun _ => keepsPure _
    | ok attr =>
      refine keepsBind Prog.keepsGet fun d => keepsIte (keepsPure _) ?_
      refine keepsIte (keepsPure _) ?_
      refine keepsBind ?_ fun addr => keepsBind Prog.keepsGet fun known => ?_
      · intro e d a d' ok
        cases Option.some.inj ok
        exact ⟨refl_of Quiet d.fs,refl_of Grows d.id,rfl,rfl,rfl⟩
      · cases known.inode (.node addr) with
        | none => exact Prog.keepsAbort
        | some inode =>
          exact keepsBind ((looksLookup newfd).enter parent name addr attr inode) fun _ =>
            (looksLookup newfd).answer addr inode.generation attr

theorem doLookupLooks (parent : Ref) (name : FileName) : Prog.Keeps Looks (doLookup parent name) := by
  intro e d r d' ok
  obtain ⟨dir,_,looks⟩ := lookupOpened ok
  have opened : Looks d {d with fs := (openPath .lookupOpen dir.fd name e d.fs).2} :=
    ⟨openPathQuiet _ dir.fd name e d.fs,refl_of Grows d.id,rfl,rfl,rfl⟩
  exact trans_of Looks opened looks

-- user.f3.id as f3_is_id sees it: a value that is not empty and fits the buffer.
def marked (v : Volume Call) (ino : Ino) : Bool := match (v.nodes ino).xattr f3Id with
  | some value => 0 < value.length ∧ value.length ≤ 10
  | none => false

def isNewId (m : Mount Call) (dir : Inode) (name : FileName) : Bool :=
  (match m.file dir.fd with
    | some f => marked m.vol f.entry.ino
    | none => false) || f3IsIdExt name.val

theorem f3IsIdSound {caller fd e} {m : Mount Call} (yes : (f3IsId caller fd e m).1 = true) :
    ∃ f, m.file fd = some f ∧ marked m.vol f.entry.ino = true := by
  simp only [f3IsId,f3GetFullFd,bind] at yes
  rcases reopenCases (.isIdOpen caller) fd ⟨.read,false,false⟩ e m with ⟨err,same⟩ | ⟨f,known,same⟩
  · simp [same,pure] at yes
  · simp only [same,cleared,Bool.false_eq_true,and_false,if_false,pure] at yes
    rcases fgetxattrCases (.isIdGet caller) (.fd m.next) f3Id 10 e
      (m.install ⟨f.entry,f.dentry,.read⟩) with ⟨err,got⟩ | ⟨g,value,there,present,short,got⟩
    · simp [got] at yes
    · rw [fileInstall] at there
      cases Option.some.inj there
      have positive : 0 < value.length := by simpa [got] using yes
      have attr : (m.vol.nodes f.entry.ino).xattr f3Id = some value := present
      exact ⟨f,known,by simp [marked,attr,positive,short]⟩

theorem isNewIdBeside {m m' : Mount Call} {dir name up p} (grows : Grows m m')
    (at_ : m.dirAt dir.fd = .ok (up,p)) (plain : isNewId m dir name = false) :
    isNewId m' dir name = false := by
  obtain ⟨f,known,rfl,_,linked⟩ := dirAtFile at_
  obtain ⟨n,slot⟩ := fdOfFile known
  simp only [isNewId,known,Bool.or_eq_false_iff] at plain ⊢
  refine ⟨?_,plain.2⟩
  cases now : m'.file dir.fd with
  | none => rfl
  | some g =>
    rw [slot] at known now
    cases Option.some.inj (known.symm.trans (grows.ages.old (fileOld known) now))
    simpa [marked,grows.xattr linked] using plain.1

end F3.Driver
