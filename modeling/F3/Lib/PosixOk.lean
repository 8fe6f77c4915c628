import F3.Lib.PosixNames

/-! Calls that succeed: nothing outside fails them, and what they need is there. -/
namespace F3.Lib.Posix
open Lib (Bytes Tree Act)
variable {χ : Type}

theorem openPathFinds {c : χ} {dir : Slot} {name : FileName} {e : Env χ} {m : Mount χ} {up p entry}
    (quiet : e.fault c = none) (at_ : m.dirAt dir = .ok (up,p))
    (found : m.vol.tree.find (p ++ [name]) = some entry) :
    openPath c dir name e m = (.ok (.fd m.next),m.install ⟨entry,some (up,name),.path⟩) := by
  simp [openPath,syscall,quiet,at_,bind,Except.bind,found]

theorem openPathMisses {c : χ} {dir : Slot} {name : FileName} {e : Env χ} {m : Mount χ} {up p}
    (quiet : e.fault c = none) (at_ : m.dirAt dir = .ok (up,p))
    (absent : m.vol.tree.find (p ++ [name]) = none) : openPath c dir name e m = (.error .enoent,m) := by
  simp [openPath,syscall,quiet,at_,bind,Except.bind,absent]

theorem fstatKnows {c : χ} {slot : Slot} {e : Env χ} {m : Mount χ} {f} (quiet : e.fault c = none)
    (known : m.file slot = some f) : fstat c slot e m = (.ok (m.vol.stat f.entry),m) := by
  simp [fstat,syscall,quiet,known]

theorem makeSucceeds {v : Volume χ} {origin : χ} {ino kind content p name up}
    (dir : v.tree.find p = some up) (isDir : up.isDir = true)
    (absent : v.tree.find (p ++ [name]) = none) (free : v.Free ino) :
    ∃ w, v.make origin ino kind content p name = .ok w := by
  have ok : v.tree.Addable p name ⟨ino,kind⟩ :=
    ⟨by simp [dir,isDir],absent,fun _ e mem same => free.2 e mem (by rw [same])⟩
  simp [Volume.make,absent,free,ok]

theorem makeAtSucceeds {c : χ} {dir : Slot} {name : FileName} {kind content} {e : Env χ} {m : Mount χ}
    {up p} (quiet : e.fault c = none) (at_ : m.dirAt dir = .ok (up,p))
    (absent : m.vol.tree.find (p ++ [name]) = none) (free : m.vol.Free (e.ino c)) :
    ∃ v, m.vol.make c (e.ino c) kind content p name = .ok v ∧
      makeAt c dir name kind content e m = (.ok (),{m with vol := v}) := by
  obtain ⟨f,_,_,isDir,found⟩ := dirAtFile at_
  obtain ⟨v,made⟩ := @makeSucceeds χ m.vol c (e.ino c) kind content p name up found isDir absent free
  exact ⟨v,made,by simp [makeAt,syscall,quiet,at_,bind,Except.bind,made]⟩

theorem openCreateMakes {c : χ} {dir : Slot} {name : FileName} {flags : Flags} {e : Env χ}
    {m : Mount χ} {up p} (quiet : e.fault c = none) (at_ : m.dirAt dir = .ok (up,p))
    (absent : m.vol.tree.find (p ++ [name]) = none) (free : m.vol.Free (e.ino c)) :
    ∃ v, m.vol.make c (e.ino c) .reg [] p name = .ok v ∧
      openCreate c dir name flags e m = (.ok (.fd m.next),
        Mount.install {m with vol := v} ⟨⟨e.ino c,.reg⟩,some (up,name),flags.access⟩) := by
  obtain ⟨f,_,_,isDir,found⟩ := dirAtFile at_
  obtain ⟨v,made⟩ := @makeSucceeds χ m.vol c (e.ino c) .reg [] p name up found isDir absent free
  exact ⟨v,made,by simp [openCreate,syscall,quiet,at_,bind,Except.bind,absent,made]⟩

theorem madeFind {v w : Volume χ} {origin : χ} {ino kind content p name}
    (made : v.make origin ino kind content p name = .ok w) (q) :
    w.tree.find q = if q = p ++ [name] then some ⟨ino,kind⟩ else v.tree.find q := by
  obtain ⟨_,ok,tree,_⟩ := makeOk made
  rw [tree,Tree.findAdd]

section Placing
variable {c : χ} {e : Env χ} {dir : Slot} {up : Entry} {p : List FileName} {name : FileName} {m : Mount χ}

/- What a call that makes a name leaves, whether it fails or not: the directory is where it was, and the
name is there if it was before or if the call could make it. -/
structure Placed (c : χ) (e : Env χ) (dir : Slot) (up : Entry) (p : List FileName) (name : FileName)
    (m n : Mount χ) : Prop where
  dirAt : n.dirAt dir = .ok (up,p)
  there : n.vol.tree.find (p ++ [name]) ≠ none ↔
    m.vol.tree.find (p ++ [name]) ≠ none ∨ e.fault c = none ∧ m.vol.Free (e.ino c)

theorem placedBefore {n : Mount χ} (at_ : m.dirAt dir = .ok (up,p)) (held : Held m.next m n)
    (tree : n.vol.tree = m.vol.tree)
    (known : m.vol.tree.find (p ++ [name]) = none → ¬ (e.fault c = none ∧ m.vol.Free (e.ino c))) :
    Placed c e dir up p name m n := by
  obtain ⟨_,_,_,_,stays⟩ := dirAtFile at_
  refine ⟨heldDir held (tree ▸ stays) at_,?_⟩
  rw [tree]
  exact ⟨.inl,fun both there => both.elim (absurd there) (known there)⟩

theorem placedMade {n : Mount χ} {v : Volume χ} {kind content} (at_ : m.dirAt dir = .ok (up,p))
    (held : Held m.next m n) (quiet : e.fault c = none)
    (made : m.vol.make c (e.ino c) kind content p name = .ok v) (tree : n.vol.tree = v.tree) :
    Placed c e dir up p name m n := by
  obtain ⟨_,_,_,_,stays⟩ := dirAtFile at_
  have new : n.vol.tree.find (p ++ [name]) ≠ none := by simp [tree,madeFind made]
  exact ⟨heldDir held (tree ▸ (makeGrows made).kept stays) at_,iff_of_true new (.inr ⟨quiet,(makeOk made).1⟩)⟩

theorem syscallQuiet {α : Type} {f : Env χ → Mount χ → Except Errno (α × Mount χ)} {a : α} {n : Mount χ}
    (ok : syscall c f e m = (.ok a,n)) : e.fault c = none := by
  rcases syscallCases c f e m with ⟨err,failed⟩ | ⟨_,_,quiet,_⟩
  · cases ok.symm.trans failed
  · exact quiet

theorem makeAtPlaced (kind : Kind) (content : Bytes) (at_ : m.dirAt dir = .ok (up,p)) :
    Placed c e dir up p name m (makeAt c dir name kind content e m).2 := by
  rcases makeAtCases c dir name kind content e m with ⟨err,failed⟩ | ⟨up',p',v,at',made,ok⟩
  · rw [failed]
    refine placedBefore at_ (refl_of (Held m.next) m) rfl fun absent can => ?_
    obtain ⟨v,_,ok⟩ := @makeAtSucceeds _ c dir name kind content e m up p can.1 at_ absent can.2
    cases failed.symm.trans ok
  · cases at_.symm.trans at'
    rw [ok]
    exact placedMade at_ (sameHeld rfl rfl) (syscallQuiet ok) made rfl

theorem openCreatePlaced (access : Access) (at_ : m.dirAt dir = .ok (up,p)) :
    Placed c e dir up p name m (openCreate c dir name ⟨access,false,false⟩ e m).2 := by
  have held := openCreateHeld c dir name ⟨access,false,false⟩ e m
  rcases openCreateCases c dir name ⟨access,false,false⟩ e m with ⟨err,failed⟩ | ⟨up',p',entry,at',found,_,ok⟩ |
    ⟨up',p',v,at',made,ok⟩
  · rw [failed] at held ⊢
    refine placedBefore at_ held rfl fun absent can => ?_
    obtain ⟨v,_,ok⟩ := @openCreateMakes _ c dir name ⟨access,false,false⟩ e m up p can.1 at_ absent can.2
    cases failed.symm.trans ok
  · cases at_.symm.trans at'
    rw [ok] at held ⊢
    exact placedBefore at_ held (by simp [cleared,Mount.install]) fun absent => by simp [found] at absent
  · cases at_.symm.trans at'
    rw [ok] at held ⊢
    exact placedMade at_ held (syscallQuiet ok) made rfl

theorem placedQuiet {n o : Mount χ} (placed : Placed c e dir up p name m n) (at_ : m.dirAt dir = .ok (up,p))
    (held : Held m.next m o) (quiet : Quiet n o) : Placed c e dir up p name m o := by
  obtain ⟨_,_,_,_,stays⟩ := dirAtFile placed.dirAt
  exact ⟨heldDir held (quiet.tree.symm ▸ stays) at_,quiet.tree.symm ▸ placed.there⟩

theorem openPathOpened (at_ : m.dirAt dir = .ok (up,p)) :
    (∃ fd n, openPath c dir name e m = (.ok fd,n)) ↔ e.fault c = none ∧ m.vol.tree.find (p ++ [name]) ≠ none := by
  constructor
  · rintro ⟨fd,n,ok⟩
    refine ⟨syscallQuiet ok,fun absent => ?_⟩
    rw [openPathMisses (syscallQuiet ok) at_ absent] at ok
    cases ok
  · rintro ⟨quiet,there⟩
    obtain ⟨entry,found⟩ := Option.ne_none_iff_exists'.mp there
    exact ⟨_,_,openPathFinds quiet at_ found⟩

end Placing

theorem fsetxattrSets {c : χ} {slot : Slot} {name value : Bytes} {e : Env χ} {m : Mount χ} {f}
    (quiet : e.fault c = none) (full : fullFile m slot = .ok f) :
    fsetxattr c slot name value e m = (.ok (),m.setAttr f.entry.ino name (some value)) := by
  simp [fsetxattr,syscall,quiet,full,bind,Except.bind]

theorem fullFileOpen {m : Mount χ} {slot f} (known : m.file slot = some f) (access : f.access ≠ .path)
    (kind : f.entry.kind = .dir ∨ f.entry.kind = .reg) : fullFile m slot = .ok f := by
  rcases kind with kind | kind <;> simp [fullFile,attrFile,known,access,kind]

theorem readlinkReads {c : χ} {slot : Slot} {e : Env χ} {m : Mount χ} {f p} (quiet : e.fault c = none)
    (known : m.file slot = some f) (placed : m.filePath f = some p)
    (short : (absolute (m.vol.mount ++ p)).length < 4096) :
    readlinkFd c slot e m = (.ok (absolute (m.vol.mount ++ p)),m) := by
  simp [readlinkFd,syscall,quiet,known,placed,short]

theorem removeRemovable {v w : Volume χ} {rmdir p} (done : v.remove rmdir p = .ok w) : v.tree.Removable p := by
  obtain ⟨_,_,_,ok,_⟩ := removeInv done
  exact ok

def Replaceable (t : Tree FileName Entry Entry.isDir) (new : List FileName) (entry : Entry) : Prop :=
  ∀ target ∈ t.find new, target = entry ∨ target.isDir = entry.isDir ∧ t.Leaf new

instance (t : Tree FileName Entry Entry.isDir) (new entry) : Decidable (Replaceable t new entry) := by
  unfold Replaceable Tree.Leaf
  infer_instance

theorem renameSame {v : Volume χ} {old new entry} (found : v.tree.find old = some entry)
    (target : v.tree.find new = some entry) : v.rename old new = .ok v := by
  simp [Volume.rename,found,target]

theorem renameSucceeds {v : Volume χ} {old q : List FileName} {name : FileName} {entry up}
    (found : v.tree.find old = some entry) (below : old ≠ []) (apart : ¬ old <+: q ++ [name])
    (dir : v.tree.find q = some up) (isDir : up.isDir = true)
    (target : Replaceable v.tree (q ++ [name]) entry) : ∃ w, v.rename old (q ++ [name]) = .ok w := by
  cases there : v.tree.find (q ++ [name]) with
  | none =>
    have ok : v.tree.Movable old (q ++ [name]) := by
      refine ⟨below,by simp,apart,fun e mem under => ?_,by simp [dir,isDir]⟩
      obtain ⟨tail,same⟩ := under
      have absent := Tree.absentBelow there tail
      rw [same,Tree.foundMem.mpr mem] at absent
      cases absent
    simp [Volume.rename,found,there,Volume.move,ok]
  | some z =>
    rcases target z there with rfl | ⟨alike,leaf⟩
    · exact ⟨v,renameSame found there⟩
    · by_cases same : entry = z
      · subst same
        exact ⟨v,renameSame found there⟩
      · have removable : v.tree.Removable (q ++ [name]) := ⟨by simp,leaf⟩
        have ok : (v.tree.remove _ removable).Movable old (q ++ [name]) := by
          refine ⟨below,by simp,apart,fun e mem under => ?_,?_⟩
          · have kept := List.mem_filter.mp mem
            simp [leaf e kept.1 under] at kept
          · rw [List.dropLast_concat,Tree.findRemove,if_neg (by simp),dir]
            exact isDir
        cases kind : entry.isDir <;>
          simp [Volume.rename,found,there,same,apart,Volume.remove,alike,kind,removable,Volume.move,ok,
            bind,Except.bind]

end F3.Lib.Posix
