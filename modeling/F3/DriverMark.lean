import F3.DriverLookup
import F3.Lib.PosixOk

/-! The mark: what f3_mark_as_id leaves on a file, what f3_is_id reads, and which of the
driver's programs change neither names nor marks. -/
namespace F3.Driver
open Lib (Bytes Arena Cell Prog Act)
open Lib.Posix

theorem fullFdCases (c : Call) (fd : Slot) (access : Access) (e : Env Call) (m : Mount Call) :
    (∃ err, f3GetFullFd c fd access e m = (.error err,m)) ∨
    ∃ f, m.file fd = some f ∧
      f3GetFullFd c fd access e m = (.ok (.fd m.next),m.install ⟨f.entry,f.dentry,access⟩) := by
  refine (reopenCases c fd ⟨access,false,false⟩ e m).imp id ?_
  rintro ⟨f,known,same⟩
  exact ⟨f,known,by simpa [f3GetFullFd,cleared] using same⟩

theorem fullFdOk {c : Call} {fd : Slot} {e : Env Call} {m : Mount Call} {f}
    (known : m.file fd = some f) (kind : f.entry.kind = .dir ∨ f.entry.kind = .reg)
    (quiet : e.fault c = none) : f3GetFullFd c fd .read e m =
      (.ok (.fd m.next),m.install ⟨f.entry,f.dentry,.read⟩) := by
  rcases kind with kind | kind <;>
    simp [f3GetFullFd,reopen,syscall,quiet,known,openEntry,kind]

theorem fullInstalled {m : Mount Call} {f : File} (kind : f.entry.kind = .dir ∨ f.entry.kind = .reg) :
    fullFile (m.install ⟨f.entry,f.dentry,.read⟩) (.fd m.next) = .ok ⟨f.entry,f.dentry,.read⟩ := by
  rcases kind with kind | kind <;> simp [fullFile,attrFile,fileInstall,kind]

theorem f3GetAttrExact {attr size fd e} {m : Mount Call} {f value} (known : m.file fd = some f)
    (kind : f.entry.kind = .dir ∨ f.entry.kind = .reg) (opens : e.fault (.getOpen attr) = none)
    (reads : e.fault (.getAttr attr) = none)
    (present : (m.vol.nodes f.entry.ino).xattr attr = some value) (short : value.length ≤ size)
    (plain : 0 ∉ value) : (f3GetAttr attr size fd e m).1 = value := by
  let m1 := m.install ⟨f.entry,f.dentry,.read⟩
  have here : (m1.vol.nodes f.entry.ino).xattr attr = some value := present
  have whole : value.takeWhile (· ≠ 0) = value := by
    have each : ∀ b ∈ value, decide (b ≠ 0) = true :=
      fun b mem => by simpa using fun zero : b = 0 => plain (zero ▸ mem)
    simpa using @List.takeWhile_append_of_pos _ (· ≠ 0) value [] each
  simp only [f3GetAttr,bind,fullFdOk known kind opens,pure]
  simp only [fgetxattr,syscall,reads,bind,Except.bind,fullInstalled kind]
  simp only [show (m.install ⟨f.entry,f.dentry,.read⟩) = m1 from rfl,here,short,if_true,whole]

def Tests (e : Env Call) : Prop :=
  ∀ caller, e.fault (.isIdOpen caller) = none ∧ e.fault (.isIdGet caller) = none

instance (e) : Decidable (Tests e) :=
  decidable_of_iff ((e.fault (.isIdOpen .handler) = none ∧ e.fault (.isIdGet .handler) = none) ∧
    e.fault (.isIdOpen .lookup) = none ∧ e.fault (.isIdGet .lookup) = none)
    ⟨fun both caller => by cases caller <;> simp [both],fun each => ⟨each .handler,each .lookup⟩⟩

theorem f3IsIdExact {caller fd e} {m : Mount Call} {f} (tests : Tests e) (known : m.file fd = some f)
    (kind : f.entry.kind = .dir ∨ f.entry.kind = .reg) :
    (f3IsId caller fd e m).1 = marked m.vol f.entry.ino := by
  have nodes : (m.install ⟨f.entry,f.dentry,.read⟩).vol.nodes = m.vol.nodes := rfl
  simp only [f3IsId,bind,fullFdOk known kind (tests caller).1,pure]
  simp only [fgetxattr,syscall,(tests caller).2,bind,Except.bind,fullInstalled kind,nodes,marked]
  cases (m.vol.nodes f.entry.ino).xattr f3Id with
  | none => rfl
  | some value => by_cases short : value.length ≤ 10 <;> simp [short]

theorem markedAlike {m m' : Mount Call} (alike : Alike f3Id m m') (ino : Ino) :
    marked m'.vol ino = marked m.vol ino := by
  simp only [marked,alike.xattr]

theorem f3IsIdHeld (caller : Caller) (fd : Slot) (e : Env Call) (m : Mount Call) :
    Held m.next m (f3IsId caller fd e m).2 := by
  simp only [f3IsId,bind]
  rcases fullFdCases (.isIdOpen caller) fd .read e m with ⟨err,same⟩ | ⟨f,known,same⟩
  · rw [same]
    exact refl_of (Held m.next) m
  · simp only [same,pure,fgetxattrState]
    exact openedHeld m _ e

theorem f3GetAttrHeld (attr : Bytes) (size : Nat) (fd : Slot) (e : Env Call) (m : Mount Call) :
    Held m.next m (f3GetAttr attr size fd e m).2 := by
  simp only [f3GetAttr,bind]
  rcases fullFdCases (.getOpen attr) fd .read e m with ⟨err,same⟩ | ⟨f,known,same⟩
  · rw [same]
    exact refl_of (Held m.next) m
  · simp only [same,pure,fgetxattrState]
    exact openedHeld m _ e

def trueText : Bytes := [116,114,117,101,0]

def idSet (m : Mount Call) (ino : Ino) : Mount Call := m.setAttr ino f3Id (some trueText)
def serversSet (m : Mount Call) (ino : Ino) (address : Bytes) : Mount Call :=
  (idSet m ino).setAttr ino f3Servers (some address)
def pathSet (m : Mount Call) (ino : Ino) (address path : Bytes) : Mount Call :=
  (serversSet m ino address).setAttr ino f3Filepath (some path)

inductive MarkedTo (address : Bytes) (fd : Slot) (rootDirLen : Nat) (m m' : Mount Call) : Prop where
  | none (same : Quiet m m')
  | id {f} (known : m.file fd = some f) (same : Quiet (idSet m f.entry.ino) m')
  | servers {f} (known : m.file fd = some f) (same : Quiet (serversSet m f.entry.ino address) m')
  | path {f p} (known : m.file fd = some f) (access : f.access ≠ .path)
      (placed : m.filePath f = some p) (short : (absolute (m.vol.mount ++ p)).length < 4096)
      (same : Quiet (pathSet m f.entry.ino address
        ((absolute (m.vol.mount ++ p)).drop rootDirLen)) m')

theorem andThenError {p : Sys Call (Except Errno α)} {f : α → Sys Call (Except Errno β)} {e m err m'}
    (failed : p e m = (.error err,m')) : andThen p f e m = (.error err,m') := by
  simp [andThen,bind,failed,pure]

theorem andThenOk {p : Sys Call (Except Errno α)} {f : α → Sys Call (Except Errno β)} {e m a m'}
    (done : p e m = (.ok a,m')) : andThen p f e m = f a e m' := by
  simp [andThen,bind,done]

theorem setMarksCases (side : Side) (address : Bytes) (fd : Slot) (rootDirLen : Nat) (e : Env Call)
    {m : Mount Call} {f} (known : m.file fd = some f) :
    let m1 := m.install ⟨f.entry,f.dentry,.read⟩
    let after := (setMarks side address (.fd m.next) fd rootDirLen e m1).2
    ((∃ err, fsetxattr (.mark side .setId) (.fd m.next) f3Id trueText e m1 = (.error err,m1)) ∧
        after = m1) ∨ after = idSet m1 f.entry.ino ∨ after = serversSet m1 f.entry.ino address ∨
      ∃ p, f.access ≠ .path ∧ m.filePath f = some p ∧ (absolute (m.vol.mount ++ p)).length < 4096 ∧
        after = pathSet m1 f.entry.ino address ((absolute (m.vol.mount ++ p)).drop rootDirLen) := by
  intro m1 after
  have opened : m1.file (.fd m.next) = some ⟨f.entry,f.dentry,.read⟩ := fileInstall m _
  have given : m1.file fd = some f := by
    obtain ⟨n,rfl⟩ := fdOfFile known
    exact ((installHeld (Nat.le_refl _) _).same n (fileOld known)).trans known
  rcases fsetxattrCases (.mark side .setId) (.fd m.next) f3Id trueText e m1 with
    ⟨err,one⟩ | ⟨g,there,_,one⟩
  · exact Or.inl ⟨⟨err,one⟩,congrArg Prod.snd (andThenError one)⟩
  · cases Option.some.inj (opened.symm.trans there)
    have first : after = _ := congrArg Prod.snd (andThenOk one)
    rcases fsetxattrCases (.mark side .setServers) (.fd m.next) f3Servers address e
      (idSet m1 f.entry.ino) with ⟨err,two⟩ | ⟨g,there,_,two⟩
    · exact Or.inr (Or.inl (first.trans (congrArg Prod.snd (andThenError two))))
    · cases Option.some.inj (opened.symm.trans there)
      have second : after = _ := first.trans (congrArg Prod.snd (andThenOk two))
      rcases readlinkFdCases (.mark side .readLink) (.fd m.next) e
        (serversSet m1 f.entry.ino address) with ⟨err,three⟩ | ⟨g,p,there,placed,short,three⟩
      · exact Or.inr (Or.inr (Or.inl (second.trans (congrArg Prod.snd (andThenError three)))))
      · cases Option.some.inj (opened.symm.trans there)
        have third : after = _ := second.trans (congrArg Prod.snd (andThenOk three))
        rcases fsetxattrCases (.mark side .setPath) fd f3Filepath
          ((absolute (m.vol.mount ++ p)).drop rootDirLen) e (serversSet m1 f.entry.ino address) with
          ⟨err,four⟩ | ⟨g,there,access,four⟩
        · exact Or.inr (Or.inr (Or.inl (third.trans (congrArg Prod.snd four))))
        · cases Option.some.inj (given.symm.trans there)
          exact Or.inr (Or.inr (Or.inr ⟨p,access,placed,short,third.trans (congrArg Prod.snd four)⟩))

theorem markedTo (side : Side) (address : Bytes) (fd : Slot) (rootDirLen : Nat) (e : Env Call)
    (m : Mount Call) :
    MarkedTo address fd rootDirLen m (f3MarkAsId side address fd rootDirLen e m).2 := by
  simp only [f3MarkAsId,bind]
  rcases fullFdCases (.mark side .openFd) fd .read e m with ⟨err,same⟩ | ⟨f,known,same⟩
  · rw [same]
    exact .none (refl_of Quiet m)
  · simp only [same,pure]
    have opened : ∀ n : Mount Call, Quiet n (close (.fd m.next) e (n.install ⟨f.entry,f.dentry,.read⟩)).2 :=
      fun n => trans_of Quiet (installQuiet n _) (closeQuiet _ _ _)
    rcases setMarksCases side address fd rootDirLen e known with
      ⟨_,here⟩ | here | here | ⟨p,access,placed,short,here⟩
    · rw [here]
      exact .none (opened m)
    · rw [here]
      exact .id known (opened (idSet m f.entry.ino))
    · rw [here]
      exact .servers known (opened (serversSet m f.entry.ino address))
    · rw [here]
      exact .path known access placed short (opened (pathSet m f.entry.ino address _))

theorem f3MarkAsIdHeld (side : Side) (address : Bytes) (fd : Slot) (rootDirLen : Nat) (e : Env Call)
    (m : Mount Call) : Held m.next m (f3MarkAsId side address fd rootDirLen e m).2 := by
  simp only [f3MarkAsId,bind]
  rcases fullFdCases (.mark side .openFd) fd .read e m with ⟨err,same⟩ | ⟨f,known,same⟩
  · rw [same]
    exact refl_of (Held m.next) m
  · simp only [same,pure]
    let m1 := m.install ⟨f.entry,f.dentry,.read⟩
    have closed : ∀ n : Mount Call, n.opened = m1.opened → n.next = m1.next →
        Held m.next m (close (.fd m.next) e n).2 := fun n opened next =>
      trans_of (Held m.next) (installHeld (Nat.le_refl _) _)
        (trans_of (Held m.next) (sameHeld opened next) (closeHeld (Nat.le_refl _) _ _))
    rcases setMarksCases side address fd rootDirLen e known with
      ⟨_,here⟩ | here | here | ⟨p,access,placed,short,here⟩ <;> rw [here] <;> exact closed _ rfl rfl

theorem serversIdAlike (m : Mount Call) (ino : Ino) (address : Bytes) :
    Alike f3Id (idSet m ino) (serversSet m ino address) :=
  setAttrAlike _ _ _ (by decide)

theorem pathIdAlike (m : Mount Call) (ino : Ino) (address path : Bytes) :
    Alike f3Id (idSet m ino) (pathSet m ino address path) :=
  trans_of (Alike f3Id) (serversIdAlike m ino address) (setAttrAlike _ _ _ (by decide))

theorem MarkedTo.idAlike {address fd rootDirLen m m'} (done : MarkedTo address fd rootDirLen m m') :
    Alike f3Id m m' ∨ ∃ f, m.file fd = some f ∧ Alike f3Id (idSet m f.entry.ino) m' := by
  cases done with
  | none same => exact Or.inl (same.alike f3Id)
  | @id f known same => exact Or.inr ⟨f,known,same.alike f3Id⟩
  | @servers f known same =>
    exact Or.inr ⟨f,known,trans_of (Alike f3Id) (serversIdAlike m f.entry.ino address) (same.alike f3Id)⟩
  | @path f p known access placed short same =>
    exact Or.inr ⟨f,known,trans_of (Alike f3Id) (pathIdAlike m f.entry.ino address _)
      (same.alike f3Id)⟩

theorem MarkedTo.pathAlike {address fd rootDirLen m m'} (done : MarkedTo address fd rootDirLen m m') :
    Alike f3Filepath m m' ∨ ∃ f p, m.file fd = some f ∧ f.access ≠ .path ∧ m.filePath f = some p ∧
      (absolute (m.vol.mount ++ p)).length < 4096 ∧ Alike f3Filepath (m.setAttr f.entry.ino f3Filepath
        (some ((absolute (m.vol.mount ++ p)).drop rootDirLen))) m' := by
  have first : ∀ ino, Alike f3Filepath m (idSet m ino) := fun ino => setAttrAlike _ _ _ (by decide)
  have second : ∀ ino, Alike f3Filepath m (serversSet m ino address) := fun ino =>
    trans_of (Alike f3Filepath) (first ino) (setAttrAlike _ _ _ (by decide))
  cases done with
  | none same => exact Or.inl (same.alike f3Filepath)
  | @id f known same => exact Or.inl (trans_of (Alike f3Filepath) (first _) (same.alike f3Filepath))
  | @servers f known same =>
    exact Or.inl (trans_of (Alike f3Filepath) (second _) (same.alike f3Filepath))
  | @path f p known access placed short same =>
    refine Or.inr ⟨f,p,known,access,placed,short,?_⟩
    exact trans_of (Alike f3Filepath) (alikeSetAttr (second _) _ _) (same.alike f3Filepath)

theorem MarkedTo.place {address fd rootDirLen m m'} (done : MarkedTo address fd rootDirLen m m') :
    m'.vol.tree = m.vol.tree ∧ m'.vol.mount = m.vol.mount := by
  cases done with
  | none same => exact ⟨same.tree,same.mount⟩
  | id _ same => exact ⟨same.tree,same.mount⟩
  | servers _ same => exact ⟨same.tree,same.mount⟩
  | path _ _ _ _ same => exact ⟨same.tree,same.mount⟩

theorem marksId {side address fd rootDirLen e} {m : Mount Call} {f} (known : m.file fd = some f)
    (kind : f.entry.kind = .dir ∨ f.entry.kind = .reg) (opens : e.fault (.mark side .openFd) = none)
    (sets : e.fault (.mark side .setId) = none) :
    Alike f3Id (idSet m f.entry.ino) (f3MarkAsId side address fd rootDirLen e m).2 := by
  let m1 := m.install ⟨f.entry,f.dentry,.read⟩
  have one : fsetxattr (.mark side .setId) (.fd m.next) f3Id trueText e m1 =
      (.ok (),idSet m1 f.entry.ino) := by
    simp [fsetxattr,syscall,sets,m1,fullInstalled kind,bind,Except.bind,idSet]
  have first : Alike f3Id (idSet m f.entry.ino) (idSet m1 f.entry.ino) :=
    alikeSetAttr ((installQuiet m _).alike f3Id) _ _
  have closed : ∀ n : Mount Call, Alike f3Id n (close (.fd m.next) e n).2 :=
    fun n => (closeQuiet _ e n).alike f3Id
  simp only [f3MarkAsId,bind,fullFdOk known kind opens,pure]
  rcases setMarksCases side address fd rootDirLen e known with
    ⟨⟨err,failed⟩,_⟩ | here | here | ⟨p,_,_,_,here⟩
  · rw [one] at failed
    cases failed
  · rw [here]
    exact trans_of (Alike f3Id) first (closed _)
  · rw [here]
    exact trans_of (Alike f3Id) first (trans_of (Alike f3Id) (serversIdAlike m1 _ _) (closed _))
  · rw [here]
    exact trans_of (Alike f3Id) first (trans_of (Alike f3Id) (pathIdAlike m1 _ _ _) (closed _))

/- What the mark writes as the path: nothing through an O_PATH descriptor, and nothing when the
path has no room in the buffer of readlink. -/
def recorded (m : Mount Call) (f : File) (rootDirLen : Nat) : Option Bytes :=
  match m.filePath f with
  | some p => if f.access ≠ .path ∧ (absolute (m.vol.mount ++ p)).length < 4096
      then some ((absolute (m.vol.mount ++ p)).drop rootDirLen) else none
  | none => none

def markSet (m : Mount Call) (ino : Ino) (address : Bytes) : Option Bytes → Mount Call
  | none => serversSet m ino address
  | some path => pathSet m ino address path

-- The calls of a mark stop at the first that fails.
def marksLeft (side : Side) (e : Env Call) (m : Mount Call) (f : File) (address : Bytes) (rootDirLen : Nat) :
    Mount Call :=
  if e.fault (.mark side .openFd) ≠ none ∨ e.fault (.mark side .setId) ≠ none then m
  else if e.fault (.mark side .setServers) ≠ none then idSet m f.entry.ino
  else if e.fault (.mark side .readLink) ≠ none ∨ e.fault (.mark side .setPath) ≠ none then
    serversSet m f.entry.ino address
  else markSet m f.entry.ino address (recorded m f rootDirLen)

theorem pathLeaves {side : Side} {fd newfd : Slot} {e : Env Call} {m : Mount Call} {f opened : File} {rootDirLen : Nat}
    (given : m.file fd = some f) (here : m.file newfd = some opened) (same : m.filePath opened = m.filePath f)
    (kind : f.entry.kind = .dir ∨ f.entry.kind = .reg) :
    (andThen (readlinkFd (.mark side .readLink) newfd) (fun fullPath =>
      fsetxattr (.mark side .setPath) fd f3Filepath (fullPath.drop rootDirLen)) e m).2 =
      if e.fault (.mark side .readLink) ≠ none ∨ e.fault (.mark side .setPath) ≠ none then m
      else match recorded m f rootDirLen with
        | none => m
        | some path => m.setAttr f.entry.ino f3Filepath (some path) := by
  have fails : ∀ {err}, readlinkFd (.mark side .readLink) newfd e m = (.error err,m) →
      (andThen (readlinkFd (.mark side .readLink) newfd) (fun fullPath =>
        fsetxattr (.mark side .setPath) fd f3Filepath (fullPath.drop rootDirLen)) e m).2 = m :=
    fun failed => congrArg Prod.snd (andThenError failed)
  cases reads : e.fault (.mark side .readLink) with
  | some err =>
    rw [if_pos (by simp)]
    exact fails (show readlinkFd _ _ e m = (.error err,m) by simp only [readlinkFd,syscall,reads])
  | none =>
    cases placed : m.filePath f with
    | none =>
      rw [fails (show readlinkFd _ _ e m = (.error .enoent,m) by simp [readlinkFd,syscall,reads,here,same,placed])]
      simp [recorded,placed]
    | some p =>
      by_cases short : (absolute (m.vol.mount ++ p)).length < 4096
      · rw [andThenOk (readlinkReads reads here (same.trans placed) short)]
        cases sets : e.fault (.mark side .setPath) with
        | some err => simp [fsetxattr,syscall,sets]
        | none =>
          rw [if_neg (by simp)]
          by_cases access : f.access = .path
          · have shut : fullFile m fd = .error .ebadf := by simp [fullFile,given,access]
            simp [fsetxattr,syscall,sets,shut,recorded,placed,access,bind,Except.bind]
          · rw [fsetxattrSets sets (fullFileOpen given access kind)]
            simp [recorded,placed,access,short]
      · rw [fails (show readlinkFd _ _ e m = (.error .enametoolong,m) by
          simp [readlinkFd,syscall,reads,here,same,placed,short])]
        simp [recorded,placed,short]

theorem marksLeave {side : Side} {fd : Slot} {e : Env Call} {m : Mount Call} {f : File} (address : Bytes)
    (rootDirLen : Nat) (known : m.file fd = some f) (kind : f.entry.kind = .dir ∨ f.entry.kind = .reg) :
    Quiet (marksLeft side e m f address rootDirLen) (f3MarkAsId side address fd rootDirLen e m).2 := by
  let opened : File := ⟨f.entry,f.dentry,.read⟩
  let m1 := m.install opened
  let m2 := serversSet m1 f.entry.ino address
  have given : m1.file fd = some f := by
    obtain ⟨n,rfl⟩ := fdOfFile known
    exact ((installHeld (Nat.le_refl _) _).same n (fileOld known)).trans known
  have full : fullFile m1 (.fd m.next) = .ok opened := fullInstalled kind
  have shut : ∀ n : Mount Call, Quiet n (close (.fd m.next) e (n.install opened)).2 :=
    fun n => trans_of Quiet (installQuiet n _) (closeQuiet _ _ _)
  unfold marksLeft
  cases opens : e.fault (.mark side .openFd) with
  | some err =>
    simp only [f3MarkAsId,f3GetFullFd,reopen,syscall,opens,bind,pure]
    exact refl_of Quiet m
  | none =>
    simp only [f3MarkAsId,bind,fullFdOk known kind opens,pure,ne_eq,not_true_eq_false,false_or]
    cases sets : e.fault (.mark side .setId) with
    | some err =>
      have stops : setMarks side address (.fd m.next) fd rootDirLen e m1 = (.error err,m1) :=
        andThenError (by simp only [fsetxattr,syscall,sets])
      rw [if_pos (by simp),stops]
      exact shut m
    | none =>
      have one : fsetxattr (.mark side .setId) (.fd m.next) f3Id trueText e m1 =
          (.ok (),idSet m1 f.entry.ino) := fsetxattrSets (f := opened) sets full
      rw [if_neg (by simp)]
      cases servers : e.fault (.mark side .setServers) with
      | some err =>
        have stops : setMarks side address (.fd m.next) fd rootDirLen e m1 = (.error err,idSet m1 f.entry.ino) :=
          (andThenOk one).trans (andThenError (by simp only [fsetxattr,syscall,servers]))
        rw [if_pos (by simp),stops]
        exact shut (idSet m f.entry.ino)
      | none =>
        have two : fsetxattr (.mark side .setServers) (.fd m.next) f3Servers address e
            (idSet m1 f.entry.ino) = (.ok (),m2) := fsetxattrSets (f := opened) servers full
        have first : setMarks side address (.fd m.next) fd rootDirLen e m1 = _ :=
          (andThenOk one).trans (andThenOk two)
        have last := @pathLeaves side fd (.fd m.next) e m2 f opened rootDirLen given (fileInstall m _) rfl kind
        have place : recorded m2 f rootDirLen = recorded m f rootDirLen := rfl
        rw [if_neg (by simp),first,last,place]
        split
        · exact shut (serversSet m f.entry.ino address)
        · cases recorded m f rootDirLen with
          | none => exact shut (serversSet m f.entry.ino address)
          | some path => exact shut (pathSet m f.entry.ino address path)

theorem marksExact {side : Side} {fd : Slot} {e : Env Call} {m : Mount Call} {f : File} (address : Bytes)
    (rootDirLen : Nat) (known : m.file fd = some f) (kind : f.entry.kind = .dir ∨ f.entry.kind = .reg)
    (calm : ∀ call, e.fault (.mark side call) = none) :
    Quiet (markSet m f.entry.ino address (recorded m f rootDirLen))
      (f3MarkAsId side address fd rootDirLen e m).2 := by
  simpa [marksLeft,calm] using @marksLeave side fd e m f address rootDirLen known kind

theorem updateSizeCases (fd : Slot) (size : Nat) (e : Env Call) (m : Mount Call) :
    (f3UpdateSizeXattr fd size e m).2 = m ∨ ∃ f, m.file fd = some f ∧ ∃ n,
      (n = m.install ⟨f.entry,f.dentry,.read⟩ ∨
        n = (m.install ⟨f.entry,f.dentry,.read⟩).setAttr f.entry.ino f3Size (some (digits size))) ∧
      (f3UpdateSizeXattr fd size e m).2 = (close (.fd m.next) e n).2 := by
  simp only [f3UpdateSizeXattr,f3GetFullFd,bind]
  rcases reopenCases .sizeOpen fd ⟨.read,false,false⟩ e m with ⟨err,same⟩ | ⟨f,known,same⟩
  · rw [same]
    exact .inl rfl
  · simp only [same,cleared,Bool.false_eq_true,and_false,if_false]
    refine .inr ⟨f,known,?_⟩
    rcases fsetxattrCases .sizeSet (.fd m.next) f3Size (digits size) e
      (m.install ⟨f.entry,f.dentry,.read⟩) with ⟨err,set⟩ | ⟨g,there,_,set⟩ <;> rw [set]
    · exact ⟨_,.inl rfl,rfl⟩
    · rw [fileInstall] at there
      cases Option.some.inj there
      exact ⟨_,.inr rfl,rfl⟩

end F3.Driver
