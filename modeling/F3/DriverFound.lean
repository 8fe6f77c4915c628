import F3.DriverAnswers

/-! Exactly when a lookup succeeds, whatever its calls return. -/
namespace F3.Driver
open Lib (Bytes Arena Cell Prog Act)
open Lib.Posix

def copySite (kind : Kind) : Call := if kind = .dir then .lookupMkdir else .lookupCreate

def CopyOpens (e : Env Call) (m : Mount Call) (idDir : Slot) (name : FileName) (kind : Kind) : Prop :=
  match m.dirAt idDir with
  | .error _ => False
  | .ok (_,q) =>
      e.fault .lookupOpenId = none ∧ m.vol.tree.find (q ++ [name]) ≠ none ∨
      (e.fault .lookupOpenId = none ∨ e.fault .lookupOpenId = some .enoent) ∧ e.fault .lookupReopen = none ∧
        (m.vol.tree.find (q ++ [name]) ≠ none ∨
          e.fault (copySite kind) = none ∧ m.vol.Free (e.ino (copySite kind)))
instance (e m idDir name kind) : Decidable (CopyOpens e m idDir name kind) := by
  unfold CopyOpens
  rcases m.dirAt idDir with _ | ⟨_,q⟩ <;> infer_instance

theorem reopenedExact {e : Env Call} {m n : Mount Call} {idDir up q} {name : FileName} {c : Call}
    (placed : Placed c e idDir up q name m n) :
    (∃ f, (openPath .lookupReopen idDir name e n).2.file (slotOf (openPath .lookupReopen idDir name e n).1) =
      some f) ↔ e.fault .lookupReopen = none ∧
        (m.vol.tree.find (q ++ [name]) ≠ none ∨ e.fault c = none ∧ m.vol.Free (e.ino c)) := by
  rw [← placed.there,← openPathOpened placed.dirAt]
  rcases openPathCases .lookupReopen idDir name e n with ⟨err,failed⟩ | ⟨up',p',entry,_,_,ok⟩
  · simp [failed,slotOf,Mount.file]
  · simp [ok,slotOf,fileInstall]

theorem createdClosed {e : Env Call} {m : Mount Call} {idDir up q} {name : FileName}
    (at_ : m.dirAt idDir = .ok (up,q)) : Placed .lookupCreate e idDir up q name m
      (close (slotOf (openCreate .lookupCreate idDir name ⟨.read,false,false⟩ e m).1) e
        (openCreate .lookupCreate idDir name ⟨.read,false,false⟩ e m).2).2 := by
  have placed := @openCreatePlaced _ .lookupCreate e idDir up q name m .read at_
  refine placedQuiet placed at_ ?_ (closeQuiet _ e _)
  exact trans_of (Held m.next) (openCreateHeld .lookupCreate idDir name _ e m) (createdShut _ _ _ _)

theorem missedExact {e : Env Call} {m : Mount Call} {idDir up q} {name : FileName} (kind : Kind)
    (at_ : m.dirAt idDir = .ok (up,q)) (missed : openPath .lookupOpenId idDir name e m = (.error .enoent,m)) :
    (∃ f, (openIdCopy idDir name kind e m).2.file (openIdCopy idDir name kind e m).1.1 = some f) ↔
      e.fault .lookupReopen = none ∧ (m.vol.tree.find (q ++ [name]) ≠ none ∨
        e.fault (copySite kind) = none ∧ m.vol.Free (e.ino (copySite kind))) := by
  by_cases isDir : kind = .dir
  · have copy := @makesDir e m _ idDir name _ missed rfl
    rw [isDir,copy]
    exact reopenedExact (makeAtPlaced .dir [] at_)
  · have copy : openIdCopy idDir name kind e m = ((slotOf (openPath .lookupReopen idDir name e
        (close (slotOf (openCreate .lookupCreate idDir name ⟨.read,false,false⟩ e m).1) e
          (openCreate .lookupCreate idDir name ⟨.read,false,false⟩ e m).2).2).1,true),
        (openPath .lookupReopen idDir name e
          (close (slotOf (openCreate .lookupCreate idDir name ⟨.read,false,false⟩ e m).1) e
            (openCreate .lookupCreate idDir name ⟨.read,false,false⟩ e m).2).2).2) := by
      simp [openIdCopy,bind,missed,makeIdCopy,isDir,pure]
    rw [copy,copySite,if_neg isDir]
    exact reopenedExact (createdClosed at_)

theorem noDirectory {e : Env Call} {m : Mount Call} {idDir} {name : FileName} (kind : Kind) {err}
    (at_ : m.dirAt idDir = .error err) :
    (openIdCopy idDir name kind e m).1.1 = .closed ∧ (openIdCopy idDir name kind e m).2 = m := by
  have opens : ∀ c, ∃ err, openPath c idDir name e m = (.error err,m) := fun c =>
    (openPathCases c idDir name e m).resolve_right (by rintro ⟨_,_,_,at',_⟩; cases at_.symm.trans at')
  obtain ⟨err1,made⟩ := (makeAtCases .lookupMkdir idDir name .dir [] e m).resolve_right
    (by rintro ⟨_,_,_,at',_⟩; cases at_.symm.trans at')
  obtain ⟨err2,created⟩ : ∃ err, openCreate .lookupCreate idDir name ⟨.read,false,false⟩ e m = (.error err,m) := by
    rcases openCreateCases .lookupCreate idDir name ⟨.read,false,false⟩ e m with failed | ⟨_,_,_,at',_⟩ |
      ⟨_,_,_,at',_⟩
    · exact failed
    · cases at_.symm.trans at'
    · cases at_.symm.trans at'
  obtain ⟨first,opened⟩ := opens .lookupOpenId
  obtain ⟨second,again⟩ := opens .lookupReopen
  simp only [openIdCopy,bind,opened]
  cases first with
  | enoent => by_cases isDir : kind = .dir <;> simp [makeIdCopy,isDir,bind,made,created,again,pure,slotOf,close]
  | _ => exact ⟨rfl,rfl⟩

theorem copyOpensExact {e : Env Call} {m : Mount Call} {idDir} {name : FileName} (kind : Kind) :
    (∃ f, (openIdCopy idDir name kind e m).2.file (openIdCopy idDir name kind e m).1.1 = some f) ↔
      CopyOpens e m idDir name kind := by
  unfold CopyOpens
  cases at_ : m.dirAt idDir with
  | error err => simp [(noDirectory kind at_).1,Mount.file]
  | ok place =>
    obtain ⟨up,q⟩ := place
    simp only
    cases fault : e.fault .lookupOpenId with
    | none =>
      by_cases there : m.vol.tree.find (q ++ [name]) = none
      · rw [missedExact kind at_ (openPathMisses fault at_ there)]
        simp [there]
      · obtain ⟨entry,found⟩ := Option.ne_none_iff_exists'.mp there
        have opened : openIdCopy idDir name kind e m =
            ((.fd m.next,false),m.install ⟨entry,some (up,name),.path⟩) := by
          simp only [openIdCopy,bind,openPathFinds fault at_ found,makeIdCopy,pure]
        simp [opened,fileInstall,there]
    | some err =>
      have failed : openPath .lookupOpenId idDir name e m = (.error err,m) := by
        simp [openPath,syscall,fault]
      by_cases isMissing : err = .enoent
      · subst isMissing
        rw [missedExact kind at_ failed]
        simp
      · have shut : openIdCopy idDir name kind e m = ((.closed,false),m) := by
          simp only [openIdCopy,bind,failed]
          unfold makeIdCopy
          split <;> simp_all [pure]
        simp [shut,isMissing,Mount.file]

/- What a lookup that resolved its name still needs: an inode that is, or becomes, an ID inode answers with
the attributes of its copy in the ID tree. -/
def StatsExactly (e : Env Call) (d : State) (dir : Inode) (name : FileName) (entry : Entry) : Prop :=
  let i := slotted d (entry.ino,d.fs.vol.dev)
  if i.Live then i.isId = true → e.fault .lookupStatId = none ∧ (d.id.file i.idFd).isSome = true
  else (i.isId || isNewHere e d.fs dir name) = true →
    e.fault .lookupStatId = none ∧ CopyOpens e d.id dir.idFd name entry.kind
instance (e d dir name entry) : Decidable (StatsExactly e d dir name entry) := by
  unfold StatsExactly
  infer_instance

theorem fstatExact {c : Call} {slot : Slot} {e : Env Call} {m : Mount Call} :
    (∃ st, (fstat c slot e m).1 = .ok st) ↔ e.fault c = none ∧ (m.file slot).isSome = true := by
  constructor
  · rintro ⟨st,ok⟩
    rcases fstatCases c slot e m with ⟨err,failed⟩ | ⟨f,known,stat⟩
    · simp [failed] at ok
    · exact ⟨syscallQuiet stat,by simp [known]⟩
  · rintro ⟨quiet,opened⟩
    obtain ⟨f,known⟩ := Option.isSome_iff_exists.mp opened
    exact ⟨_,congrArg Prod.fst (fstatKnows quiet known)⟩

theorem answeredExact {e : Env Call} {m : Mount Call} {isId : Bool} {idFd : Slot} {r}
    (answered : Answered e m isId idFd r) :
    (∃ x, r = .ok x) ↔ (isId = true → e.fault .lookupStatId = none ∧ (m.file idFd).isSome = true) := by
  rcases answered with ⟨isId,err,failed,rfl⟩ | ⟨stats,x,rfl⟩
  · refine iff_of_false (by simp) fun stats => ?_
    obtain ⟨st,ok⟩ := fstatExact.mpr (stats isId)
    cases failed.symm.trans ok
  · exact iff_of_true ⟨x,rfl⟩ fun isId => fstatExact.mp (stats isId)

theorem toldExact {name : FileName} {e : Env Call} {d d' : State} {dir : Inode} {newfd} {entry : Entry} {r}
    (found : resolve e d.fs d.conf.srcDev dir name = some (newfd,d.fs.vol.stat entry))
    (told : Told name e d dir r d') : (∃ x, r = .ok x) ↔ StatsExactly e d dir name entry := by
  simp only [Told,found] at told
  simp only [StatsExactly]
  split at told
  · rename_i live
    rw [if_pos (by exact live)]
    exact answeredExact told.2
  · rename_i dead
    rw [if_neg (by exact dead),answeredExact told.2,told.1,Option.isSome_iff_exists,copyOpensExact]
    rfl

-- Which entry a lookup finds, if its calls on the FS tree succeed and the entry's number is not the root's.
def Resolves (e : Env Call) (d : State) (dir : Inode) (name : FileName) (entry : Entry) : Prop :=
  e.fault .lookupOpen = none ∧ e.fault .lookupStat = none ∧ foundAt d.fs dir.fd name = some entry ∧
    d.fs.vol.dev = d.conf.srcDev ∧ entry.ino ≠ 1
instance (e d dir name entry) : Decidable (Resolves e d dir name entry) := by unfold Resolves; infer_instance

theorem resolveExact {name : FileName} {e : Env Call} {d : State} {dir : Inode} {newfd attr} :
    resolve e d.fs d.conf.srcDev dir name = some (newfd,attr) ↔
      newfd = .fd d.fs.next ∧ ∃ entry, attr = d.fs.vol.stat entry ∧ Resolves e d dir name entry := by
  constructor
  · intro ok
    obtain ⟨up,p,entry,at_,found,isFd,isAttr,dev⟩ := resolved ok
    subst isAttr
    refine ⟨isFd,entry,rfl,?_⟩
    unfold resolve at ok
    split at ok <;> try contradiction
    rename_i fd opened
    split at ok <;> try contradiction
    rename_i st stated
    split at ok <;> try contradiction
    rename_i fits
    cases Option.some.inj ok
    exact ⟨syscallQuiet (Prod.ext opened rfl),(fstatExact.mp ⟨_,stated⟩).1,(foundAtPath at_).trans found,dev,
      (not_or.mp fits).2⟩
  · rintro ⟨rfl,entry,rfl,opens,stats,found,dev,reserved⟩
    unfold foundAt at found
    split at found <;> try contradiction
    rename_i up p at_
    exact resolveFinds opens stats at_ found dev reserved

def Answers (e : Env Call) (d : State) (dir : Inode) (name : FileName) : Prop :=
  ∃ entry ∈ foundAt d.fs dir.fd name, Resolves e d dir name entry ∧ StatsExactly e d dir name entry
instance (e d dir name) : Decidable (Answers e d dir name) := by unfold Answers; infer_instance

theorem lookupExact {parent : Ref} {name : FileName} {e : Env Call} {d : State} {dir : Inode}
    (known : getInode parent e d = some (dir,d)) :
    (∃ x t, doLookup parent name e d = some (.ok x,t)) ↔ Answers e d dir name := by
  obtain ⟨r,t,ran,looked,told,_⟩ := @lookupRuns parent e name d dir known
  have answers : (∃ x t, doLookup parent name e d = some (.ok x,t)) ↔ ∃ x, r = .ok x := by
    simp [ran]
  rw [answers]
  cases found : resolve e d.fs d.conf.srcDev dir name with
  | none =>
    refine iff_of_false ?_ ?_
    · cases looked with
      | missed _ _ failed _ =>
        obtain ⟨err,rfl⟩ := failed
        simp
      | known up there =>
        cases (getInodeSome known).2.1.symm.trans up
        cases found.symm.trans there
      | built up there =>
        cases (getInodeSome known).2.1.symm.trans up
        cases found.symm.trans there
    · rintro ⟨entry,_,resolves,_⟩
      cases found.symm.trans (resolveExact.mpr ⟨rfl,entry,rfl,resolves⟩)
  | some place =>
    obtain ⟨newfd,attr⟩ := place
    obtain ⟨_,entry,rfl,resolves⟩ := resolveExact.mp found
    rw [toldExact found told]
    refine ⟨fun stats => ⟨entry,resolves.2.2.1,resolves,stats⟩,?_⟩
    rintro ⟨other,_,also,stats⟩
    cases resolves.2.2.1.symm.trans also.2.2.1
    exact stats

end F3.Driver
