import F3.Lib.PosixNames
import F3.Lib.PosixFds

/-! What a process can rely on about the files it has open. A volume's `busy` counts the
descriptors of all processes, so a new file never gets the number of an open one, and what
a call does elsewhere leaves an open file alone. -/
namespace F3.Lib.Posix
open Lib (Bytes Act)
variable {χ α : Type} {m m' : Mount χ} {others : List Ino}

def inos (m : Mount χ) : List Ino := m.opened.map fun o => o.2.entry.ino

def Books (others : List Ino) (m : Mount χ) : Prop :=
  ∀ ino, others.count ino + (inos m).count ino ≤ m.vol.busy.count ino

theorem booksOpen (books : Books others m) {slot f} (known : m.file slot = some f) :
    f.entry.ino ∈ m.vol.busy := by
  obtain ⟨n,rfl⟩ := fdOfFile known
  have mem : f.entry.ino ∈ inos m := List.mem_map.mpr ⟨(n,f),fileOpened known,rfl⟩
  have counted := List.count_pos_iff.mpr mem
  have all := books f.entry.ino
  exact List.count_pos_iff.mp (by omega)

theorem booksOthers (books : Books others m) {ino} (mem : ino ∈ others) : ino ∈ m.vol.busy := by
  have counted := List.count_pos_iff.mpr mem
  have all := books ino
  exact List.count_pos_iff.mp (by omega)

theorem booksInstall (books : Books others m) (f : File) : Books others (m.install f) := by
  intro ino
  have all := books ino
  simp only [inos,Mount.install,List.map_cons,List.count_cons] at all ⊢
  omega

theorem inosDrop {n : Fd} {f : File} (known : (n,f) ∈ m.opened) (ino : Ino) :
    (inos (m.drop n f.entry.ino)).count ino + (if f.entry.ino = ino then 1 else 0) ≤ (inos m).count ino := by
  have apart := List.perm_cons_erase known
  have rest : (m.opened.filter fun o => o.1 ≠ n).Perm
      ((m.opened.erase (n,f)).filter fun o => o.1 ≠ n) := by
    simpa using apart.filter fun o => o.1 ≠ n
  have less := ((List.filter_sublist (p := fun o : Fd × File => decide (o.1 ≠ n))
    (l := m.opened.erase (n,f))).map fun o => o.2.entry.ino).count_le ino
  calc (inos (m.drop n f.entry.ino)).count ino + (if f.entry.ino = ino then 1 else 0)
      = (((m.opened.erase (n,f)).filter fun o => o.1 ≠ n).map fun o => o.2.entry.ino).count ino +
          (if f.entry.ino = ino then 1 else 0) := by
        rw [inos]
        exact congrArg (· + _) ((rest.map _).count_eq ino)
    _ ≤ ((m.opened.erase (n,f)).map fun o => o.2.entry.ino).count ino +
          (if f.entry.ino = ino then 1 else 0) := Nat.add_le_add_right less _
    _ = (inos m).count ino := by
        rw [inos,(apart.map fun o => o.2.entry.ino).count_eq ino,List.map_cons,List.count_cons]
        simp

theorem booksDrop (books : Books others m) {n : Fd} {f : File} (known : (n,f) ∈ m.opened) :
    Books others (m.drop n f.entry.ino) := by
  intro ino
  have all := books ino
  have less := inosDrop known ino
  have count : (m.drop n f.entry.ino).vol.busy.count ino =
      m.vol.busy.count ino - if f.entry.ino = ino then 1 else 0 := by
    simp [Mount.drop,List.count_erase]
  rw [count]
  omega

/- What is watched of a file: it stays the same when something else is opened, closed,
written, made, linked, removed or renamed. -/
class Watch (Q : Volume χ → Volume χ → Ino → Prop) : Prop where
  refl : ∀ v ino, Q v v ino
  trans : ∀ {u v w ino}, Q u v ino → Q v w ino → Q u w ino
  busy : ∀ (v : Volume χ) busy ino, Q v {v with busy := busy} ino
  content : ∀ (v : Volume χ) other content ino,
    Q v (v.setNode other {v.nodes other with content := content}) ino
  made : ∀ {v w : Volume χ} {origin other kind content p name ino},
    v.make origin other kind content p name = .ok w → ino ≠ other → Q v w ino
  linked : ∀ {v w : Volume χ} {entry p name ino}, v.link entry p name = .ok w → Q v w ino
  removed : ∀ {v w : Volume χ} {rmdir p ino}, v.remove rmdir p = .ok w → Q v w ino
  renamed : ∀ {v w : Volume χ} {old new ino}, v.rename old new = .ok w → Q v w ino

structure Steady (Q : Volume χ → Volume χ → Ino → Prop) (others : List Ino) (m m' : Mount χ) : Prop where
  ages : Ages m m'
  books : Books others m → Books others m'
  own : Books others m → ∀ {n f}, n < m.next → m'.file (.fd n) = some f → Q m.vol m'.vol f.entry.ino
  theirs : Books others m → ∀ {ino}, ino ∈ others → Q m.vol m'.vol ino

theorem volSteady {Q : Volume χ → Volume χ → Ino → Prop} {w : Volume χ} (busy : w.busy = m.vol.busy)
    (spares : ∀ ino ∈ m.vol.busy, Q m.vol w ino) : Steady Q others m {m with vol := w} := by
  refine ⟨⟨Nat.le_refl _,fun _ known => known⟩,fun books ino => ?_,?_,?_⟩
  · have all := books ino
    rw [← busy] at all
    exact all
  · intro books n f _ known
    have before : m.file (.fd n) = some f := known
    exact spares _ (booksOpen books before)
  · intro books ino mem
    exact spares _ (booksOthers books mem)

class Durable (R : Mount χ → Mount χ → Prop) : Prop extends IsPreorder (Mount χ) R where
  close : ∀ slot, Act.Keeps R (close slot : Sys χ Unit)
  openPath : ∀ c dir name, Act.Keeps R (openPath c dir name)
  openCreate : ∀ c dir name flags, Act.Keeps R (openCreate c dir name flags)
  reopen : ∀ c slot flags, Act.Keeps R (reopen c slot flags)
  fstat : ∀ c slot, Act.Keeps R (fstat c slot)
  fgetxattr : ∀ c slot name size, Act.Keeps R (fgetxattr c slot name size)
  readlinkFd : ∀ c slot, Act.Keeps R (readlinkFd c slot)
  makeAt : ∀ c dir name kind content, Act.Keeps R (makeAt c dir name kind content)
  linkAt : ∀ c slot dir name, Act.Keeps R (linkAt c slot dir name)
  unlinkAt : ∀ c dir name rmdir, Act.Keeps R (unlinkAt c dir name rmdir)
  renameAt : ∀ c dir name newdir newname, Act.Keeps R (renameAt c dir name newdir newname)
  ftruncate : ∀ c slot size, Act.Keeps R (ftruncate c slot size)
  truncateAt : ∀ c slot size, Act.Keeps R (truncateAt c slot size)
  pwriteAt : ∀ c slot off data, Act.Keeps R (pwriteAt c slot off data)
  content : ∀ m ino content, R m (m.setContent ino content)

class Lasting (R : Mount χ → Mount χ → Prop) : Prop extends Durable R where
  fsetxattr : ∀ c slot name value, Act.Keeps R (fsetxattr c slot name value)

section Steady
variable {Q : Volume χ → Volume χ → Ino → Prop} [Watch Q]

instance : IsPreorder (Mount χ) (Steady Q others) where
  refl m := ⟨refl_of Ages m,id,fun _ {_ _} _ _ => Watch.refl _ _,fun _ {_} _ => Watch.refl _ _⟩
  trans _ _ _ one two := by
    refine ⟨trans_of Ages one.ages two.ages,fun books => two.books (one.books books),?_,?_⟩
    · intro books n f below known
      have later := Nat.lt_of_lt_of_le below one.ages.next
      exact Watch.trans (one.own books below (two.ages.old later known))
        (two.own (one.books books) later known)
    · intro books ino mem
      exact Watch.trans (one.theirs books mem) (two.theirs (one.books books) mem)

theorem contentSteady (m : Mount χ) (ino : Ino) (content : Bytes) :
    Steady Q others m (m.setContent ino content) :=
  volSteady rfl fun _ _ => Watch.content _ _ _ _

theorem installSteady (m : Mount χ) (f : File) : Steady Q others m (m.install f) := by
  refine ⟨(installQuiet m f).ages,fun books => booksInstall books f,?_,?_⟩
  · intro _ n g _ _
    exact Watch.busy _ _ _
  · intro _ ino _
    exact Watch.busy _ _ _

theorem closeSteady (slot : Slot) : Act.Keeps (Steady Q others) (close slot : Sys χ Unit) := by
  intro e m
  have ages := (closeQuiet slot e m).ages
  cases slot with
  | closed => exact refl_of (Steady Q others) m
  | enoent => exact refl_of (Steady Q others) m
  | fd n =>
    unfold close at ages ⊢
    cases found : m.opened.find? (fun o => o.1 = n) with
    | none =>
      simp only [found] at ages ⊢
      exact ⟨ages,fun books => books,fun _ {_ _} _ _ => Watch.refl _ _,fun _ {_} _ => Watch.refl _ _⟩
    | some o =>
      obtain ⟨k,f⟩ := o
      have same : k = n := by simpa using List.find?_some found
      subst same
      simp only [found] at ages ⊢
      exact ⟨ages,fun books => booksDrop books (List.mem_of_find?_eq_some found),
        fun _ {_ _} _ _ => Watch.busy _ _ _,fun _ {_} _ => Watch.busy _ _ _⟩

theorem freeApart {v : Volume χ} {new ino : Ino} (free : v.Free new) (mem : ino ∈ v.busy) : ino ≠ new := by
  rintro rfl
  exact free.1 mem

theorem makeBusy {v w : Volume χ} {origin ino kind content p name}
    (done : v.make origin ino kind content p name = .ok w) : w.busy = v.busy := by
  obtain ⟨_,_,_,rfl⟩ := makeInv done
  rfl

theorem linkBusy {v w : Volume χ} {entry p name} (done : v.link entry p name = .ok w) : w.busy = v.busy := by
  obtain ⟨_,_,_,_,rfl⟩ := linkInv done
  rfl

theorem removeBusy {v w : Volume χ} {rmdir p} (done : v.remove rmdir p = .ok w) : w.busy = v.busy := by
  obtain ⟨_,_,_,_,_,rfl⟩ := removeInv done
  rfl

theorem moveBusy {v w : Volume χ} {old new} (done : v.move old new = .ok w) : w.busy = v.busy := by
  obtain ⟨_,_,rfl⟩ := moveInv done
  rfl

theorem renameBusy {v w : Volume χ} {old new} (done : v.rename old new = .ok w) : w.busy = v.busy := by
  rcases renameInv done with ⟨rfl,_⟩ | moved | ⟨rmdir,u,removed,moved⟩
  · rfl
  · exact moveBusy moved
  · exact (moveBusy moved).trans (removeBusy removed)

theorem madeSteady {w : Volume χ} {origin ino kind content p name}
    (done : m.vol.make origin ino kind content p name = .ok w) : Steady Q others m {m with vol := w} :=
  volSteady (makeBusy done) fun _ mem => Watch.made done (freeApart (makeOk done).1 mem)

theorem clearedSteady (flags : Flags) (m : Mount χ) (entry : Entry) :
    Steady Q others m (cleared flags m entry) := by
  unfold cleared
  split
  · exact contentSteady m _ _
  · exact refl_of (Steady Q others) m

theorem openCreateSteady (c : χ) (dir : Slot) (name : FileName) (flags : Flags) :
    Act.Keeps (Steady Q others) (openCreate c dir name flags) := by
  intro e m
  rcases openCreateCases c dir name flags e m with ⟨err,same⟩ | ⟨up,p,entry,_,_,_,same⟩ | ⟨up,p,v,_,made,same⟩ <;>
    rw [same]
  · exact refl_of (Steady Q others) m
  · exact trans_of (Steady Q others) (clearedSteady flags m entry) (installSteady _ _)
  · exact trans_of (Steady Q others) (madeSteady made) (installSteady _ _)

theorem reopenSteady (c : χ) (slot : Slot) (flags : Flags) :
    Act.Keeps (Steady Q others) (reopen c slot flags) := by
  intro e m
  rcases reopenCases c slot flags e m with ⟨err,same⟩ | ⟨f,_,same⟩ <;> rw [same]
  · exact refl_of (Steady Q others) m
  · exact trans_of (Steady Q others) (clearedSteady flags m f.entry) (installSteady _ _)

instance : Durable (Steady Q others : Mount χ → Mount χ → Prop) where
  close := closeSteady
  openPath c dir name e m := by
    rcases openPathCases c dir name e m with ⟨err,same⟩ | ⟨up,p,entry,_,_,same⟩ <;> rw [same]
    · exact refl_of (Steady Q others) m
    · exact installSteady m _
  openCreate := openCreateSteady
  reopen := reopenSteady
  fstat c slot e m := by
    rw [fstatState]
    exact refl_of (Steady Q others) m
  fgetxattr c slot name size e m := by
    rw [fgetxattrState]
    exact refl_of (Steady Q others) m
  readlinkFd c slot e m := by
    rcases readlinkFdCases c slot e m with ⟨err,same⟩ | ⟨f,p,_,_,_,same⟩ <;> rw [same] <;>
      exact refl_of (Steady Q others) m
  makeAt c dir name kind content e m := by
    rcases makeAtCases c dir name kind content e m with ⟨err,same⟩ | ⟨up,p,v,_,made,same⟩ <;> rw [same]
    · exact refl_of (Steady Q others) m
    · exact madeSteady made
  linkAt c slot dir name e m := by
    rcases linkAtCases c slot dir name e m with ⟨err,same⟩ | ⟨f,up,p,v,_,_,linked,same⟩ <;> rw [same]
    · exact refl_of (Steady Q others) m
    · exact volSteady (linkBusy linked) fun _ _ => Watch.linked linked
  unlinkAt c dir name rmdir e m := by
    rcases unlinkAtCases c dir name rmdir e m with ⟨err,same⟩ | ⟨up,p,v,_,removed,same⟩ <;> rw [same]
    · exact refl_of (Steady Q others) m
    · exact volSteady (removeBusy removed) fun _ _ => Watch.removed removed
  renameAt c dir name newdir newname e m := by
    rcases renameAtCases c dir name newdir newname e m with ⟨err,same⟩ | ⟨up,p,up',q,v,_,_,renamed,same⟩ <;>
      rw [same]
    · exact refl_of (Steady Q others) m
    · exact volSteady (renameBusy renamed) fun _ _ => Watch.renamed renamed
  ftruncate c slot size e m := by
    rcases ftruncateCases c slot size e m with ⟨err,same⟩ | ⟨f,_,_,same⟩ <;> rw [same]
    · exact refl_of (Steady Q others) m
    · exact contentSteady m _ _
  truncateAt c slot size e m := by
    rcases truncateAtCases c slot size e m with ⟨err,same⟩ | ⟨f,_,same⟩ <;> rw [same]
    · exact refl_of (Steady Q others) m
    · exact contentSteady m _ _
  pwriteAt c slot off data e m := by
    rcases pwriteAtCases c slot off data e m with ⟨err,same⟩ | ⟨f,_,_,same⟩ <;> rw [same]
    · exact refl_of (Steady Q others) m
    · exact contentSteady m _ _
  content := contentSteady

end Steady

def Anything (_ _ : Volume χ) (_ : Ino) : Prop := True

instance : Watch (Anything : Volume χ → Volume χ → Ino → Prop) where
  refl _ _ := trivial
  trans _ _ := trivial
  busy _ _ _ := trivial
  content _ _ _ _ := trivial
  made _ _ := trivial
  linked _ := trivial
  removed _ := trivial
  renamed _ := trivial

instance : Lasting (Steady Anything others : Mount χ → Mount χ → Prop) where
  fsetxattr c slot name value e m := by
    rcases fsetxattrCases c slot name value e m with ⟨err,same⟩ | ⟨f,_,_,same⟩ <;> rw [same]
    · exact refl_of (Steady Anything others) m
    · exact volSteady rfl fun _ _ => trivial

def SameBut (o : Option Ino) (v w : Volume χ) (ino : Ino) : Prop :=
  o ≠ some ino → (w.nodes ino).xattr = (v.nodes ino).xattr

instance (o : Option Ino) : Watch (SameBut o : Volume χ → Volume χ → Ino → Prop) where
  refl _ _ _ := rfl
  trans one two apart := (two apart).trans (one apart)
  busy _ _ _ _ := rfl
  content v other content ino _ := by
    simp only [Volume.setNode]
    split
    · rename_i same
      rw [same]
    · rfl
  made done other _ := by
    obtain ⟨_,_,_,nodes,_,_⟩ := makeOk done
    simp [nodes,Volume.setNode,other]
  linked done _ := by rw [(linkOk done).2.2.1]
  removed done _ := by rw [(removeOk done).1]
  renamed done _ := by
    rcases renameOk done with ⟨rfl,_⟩ | ⟨nodes,_⟩
    · rfl
    · rw [nodes]

theorem steadyBut {ino : Ino} (new : ino ∉ m.vol.busy) (steady : Steady (SameBut (some ino)) others m m') :
    Steady (SameBut none) others m m' := by
  have other : ∀ {busy}, busy ∈ m.vol.busy → some ino ≠ some busy := by
    rintro busy mem same
    cases Option.some.inj same
    exact new mem
  refine ⟨steady.ages,steady.books,fun books {n f} below known _ => ?_,fun books {i} mem _ => ?_⟩
  · exact steady.own books below known (other (booksOpen books (steady.ages.old below known)))
  · exact steady.theirs books mem (other (booksOthers books mem))

theorem setAttrSteady (m : Mount χ) (ino : Ino) (name : Bytes) (value : Option Bytes) :
    Steady (SameBut (some ino)) others m (m.setAttr ino name value) := by
  refine volSteady rfl fun other _ apart => ?_
  have ne : other ≠ ino := fun same => apart (congrArg some same.symm)
  simp [Volume.setNode,ne]

end F3.Lib.Posix
