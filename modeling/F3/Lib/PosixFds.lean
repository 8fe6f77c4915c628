import F3.Lib.PosixNames

/-! What calls do to the descriptors of a process: which numbers are open, and which ones
close was given while they were not. -/
namespace F3.Lib.Posix
open Lib (Bytes Act)

variable {χ α : Type} {m m1 m' : Mount χ} {k : Fd} {f : File}

structure Tidy (m m' : Mount χ) : Prop where
  next : m.next ≤ m'.next
  file : ∀ n, m'.file (.fd n) = m.file (.fd n)
  stray : m'.stray = m.stray

instance : IsPreorder (Mount χ) Tidy where
  refl _ := ⟨Nat.le_refl _,fun _ => rfl,rfl⟩
  trans _ _ _ one two := ⟨Nat.le_trans one.next two.next,fun n => (two.file n).trans (one.file n),
    two.stray.trans one.stray⟩

structure Opened (k : Fd) (f : File) (m m' : Mount χ) : Prop where
  new : m.next ≤ k
  next : k < m'.next
  here : m'.file (.fd k) = some f
  others : ∀ n, n ≠ k → m'.file (.fd n) = m.file (.fd n)
  stray : m'.stray = m.stray

structure Closed (k : Fd) (m m' : Mount χ) : Prop where
  next : m.next ≤ m'.next
  gone : m'.file (.fd k) = none
  others : ∀ n, n ≠ k → m'.file (.fd n) = m.file (.fd n)
  stray : m'.stray = m.stray

theorem fileNew (m : Mount χ) {n : Fd} (new : m.next ≤ n) : m.file (.fd n) = none := by
  cases known : m.file (.fd n) with
  | none => rfl
  | some f => exact absurd (fileOld known) (Nat.not_lt.mpr new)

theorem sameTidy (opened : m'.opened = m.opened) (next : m'.next = m.next) (stray : m'.stray = m.stray) :
    Tidy m m' :=
  ⟨Nat.le_of_eq next.symm,fun n => by simp [Mount.file,opened],stray⟩

theorem installOpened (m : Mount χ) (f : File) : Opened m.next f m (m.install f) := by
  refine ⟨Nat.le_refl _,Nat.lt_succ_self _,fileInstall m f,fun n other => ?_,rfl⟩
  simp [Mount.file,Mount.install,Ne.symm other]

theorem tidyOpened (tidy : Tidy m m1) (opened : Opened k f m1 m') : Opened k f m m' :=
  ⟨Nat.le_trans tidy.next opened.new,opened.next,opened.here,
    fun n other => (opened.others n other).trans (tidy.file n),opened.stray.trans tidy.stray⟩

theorem openedTidy (opened : Opened k f m m1) (tidy : Tidy m1 m') : Opened k f m m' :=
  ⟨opened.new,Nat.lt_of_lt_of_le opened.next tidy.next,(tidy.file k).trans opened.here,
    fun n other => (tidy.file n).trans (opened.others n other),tidy.stray.trans opened.stray⟩

theorem closeGone (k : Fd) (e : Env χ) (m : Mount χ) : (close (.fd k) e m).2.file (.fd k) = none := by
  unfold close
  simp only
  split
  · simp [Mount.file,Mount.drop]
  · rename_i none
    simpa [Mount.file] using none

theorem closeNext (slot : Slot) (e : Env χ) (m : Mount χ) : (close slot e m).2.next = m.next := by
  unfold close
  split
  · split <;> rfl
  · rfl

theorem closeOpen (known : m.file (.fd k) = some f) (e : Env χ) :
    Closed k m (close (.fd k) e m).2 := by
  refine ⟨Nat.le_of_eq (closeNext _ e m).symm,closeGone k e m,fun n other => closeOther other e m,?_⟩
  unfold close
  simp only
  split
  · rfl
  · rename_i none
    simp [Mount.file,none] at known

theorem openedClosed (opened : Opened k f m m1) (e : Env χ) : Tidy m (close (.fd k) e m1).2 := by
  have closed := closeOpen opened.here e
  refine ⟨?_,fun n => ?_,closed.stray.trans opened.stray⟩
  · exact Nat.le_trans (Nat.le_of_lt (Nat.lt_of_le_of_lt opened.new opened.next)) closed.next
  · by_cases here : n = k
    · rw [here,closed.gone,fileNew m opened.new]
    · rw [closed.others n here,opened.others n here]

section Calls
variable (c : χ) (e : Env χ) (m : Mount χ)

theorem openPathOpens (dir : Slot) (name : FileName) :
    (∃ err, openPath c dir name e m = (.error err,m)) ∨
    ∃ f n, openPath c dir name e m = (.ok (.fd m.next),n) ∧ Opened m.next f m n := by
  rcases openPathCases c dir name e m with failed | ⟨up,p,entry,_,_,same⟩
  · exact Or.inl failed
  · exact Or.inr ⟨_,_,same,installOpened m _⟩

theorem clearedTidy (flags : Flags) (entry : Entry) : Tidy m (cleared flags m entry) := by
  unfold cleared
  split
  · exact sameTidy rfl rfl rfl
  · exact refl_of Tidy m

theorem clearedOpened (flags : Flags) (entry : Entry) (f : File) :
    Opened m.next f m ((cleared flags m entry).install f) := by
  have opened := installOpened (cleared flags m entry) f
  rw [(clearedFiles flags m entry).2] at opened
  exact tidyOpened (clearedTidy m flags entry) opened

theorem reopenOpens (slot : Slot) (flags : Flags) :
    (∃ err, reopen c slot flags e m = (.error err,m)) ∨
    ∃ f n, reopen c slot flags e m = (.ok (.fd m.next),n) ∧ Opened m.next f m n := by
  rcases reopenCases c slot flags e m with failed | ⟨g,_,same⟩
  · exact Or.inl failed
  · exact Or.inr ⟨_,_,same,clearedOpened m flags _ _⟩

theorem openCreateOpens (dir : Slot) (name : FileName) (flags : Flags) :
    (∃ err, openCreate c dir name flags e m = (.error err,m)) ∨
    ∃ f n, openCreate c dir name flags e m = (.ok (.fd m.next),n) ∧ Opened m.next f m n := by
  rcases openCreateCases c dir name flags e m with
    failed | ⟨_,_,_,_,_,_,same⟩ | ⟨up,_,v,_,_,same⟩
  · exact Or.inl failed
  · exact Or.inr ⟨_,_,same,clearedOpened m flags _ _⟩
  · have opened := installOpened {m with vol := v} ⟨⟨e.ino c,.reg⟩,some (up,name),flags.access⟩
    have made : Tidy m {m with vol := v} := sameTidy rfl rfl rfl
    exact Or.inr ⟨_,_,same,tidyOpened made opened⟩

end Calls

section Others
variable (c : χ)

theorem fstatTidy (slot : Slot) : Act.Keeps Tidy (fstat c slot) := by
  intro e m
  rw [fstatState]
  exact refl_of Tidy m

theorem fgetxattrTidy (slot : Slot) (name : Bytes) (size : Nat) :
    Act.Keeps Tidy (fgetxattr c slot name size) := by
  intro e m
  rw [fgetxattrState]
  exact refl_of Tidy m

theorem fsetxattrTidy (slot : Slot) (name value : Bytes) : Act.Keeps Tidy (fsetxattr c slot name value) := by
  intro e m
  rcases fsetxattrCases c slot name value e m with ⟨_,same⟩ | ⟨_,_,_,same⟩ <;> rw [same]
  · exact refl_of Tidy m
  · exact sameTidy rfl rfl rfl

theorem readlinkTidy (slot : Slot) : Act.Keeps Tidy (readlinkFd c slot) := by
  intro e m
  rcases readlinkFdCases c slot e m with ⟨_,same⟩ | ⟨_,_,_,_,_,same⟩ <;> rw [same] <;>
    exact refl_of Tidy m

theorem makeAtTidy (dir : Slot) (name : FileName) (kind : Kind) (content : Bytes) :
    Act.Keeps Tidy (makeAt c dir name kind content) := by
  intro e m
  rcases makeAtCases c dir name kind content e m with ⟨_,same⟩ | ⟨_,_,_,_,_,same⟩ <;> rw [same]
  · exact refl_of Tidy m
  · exact sameTidy rfl rfl rfl

theorem linkAtTidy (slot dir : Slot) (name : FileName) : Act.Keeps Tidy (linkAt c slot dir name) := by
  intro e m
  rcases linkAtCases c slot dir name e m with ⟨_,same⟩ | ⟨_,_,_,_,_,_,_,same⟩ <;> rw [same]
  · exact refl_of Tidy m
  · exact sameTidy rfl rfl rfl

theorem unlinkAtTidy (dir : Slot) (name : FileName) (rmdir : Bool) :
    Act.Keeps Tidy (unlinkAt c dir name rmdir) := by
  intro e m
  rcases unlinkAtCases c dir name rmdir e m with ⟨_,same⟩ | ⟨_,_,_,_,_,same⟩ <;> rw [same]
  · exact refl_of Tidy m
  · exact sameTidy rfl rfl rfl

theorem renameAtTidy (dir : Slot) (name : FileName) (newdir : Slot) (newname : FileName) :
    Act.Keeps Tidy (renameAt c dir name newdir newname) := by
  intro e m
  rcases renameAtCases c dir name newdir newname e m with ⟨_,same⟩ | ⟨_,_,_,_,_,_,_,_,same⟩ <;> rw [same]
  · exact refl_of Tidy m
  · exact sameTidy rfl rfl rfl

theorem setxattrAtTidy (slot : Slot) (name value : Bytes) (flag : SetFlag) :
    Act.Keeps Tidy (setxattrAt c slot name value flag) := by
  intro e m
  rcases setxattrAtCases c slot name value flag e m with ⟨_,same⟩ | ⟨_,_,same⟩ <;> rw [same]
  · exact refl_of Tidy m
  · exact sameTidy rfl rfl rfl

theorem removexattrAtTidy (slot : Slot) (name : Bytes) : Act.Keeps Tidy (removexattrAt c slot name) := by
  intro e m
  rcases removexattrAtCases c slot name e m with ⟨_,same⟩ | ⟨_,_,_,_,same⟩ <;> rw [same]
  · exact refl_of Tidy m
  · exact sameTidy rfl rfl rfl

theorem ftruncateTidy (slot : Slot) (size : Nat) : Act.Keeps Tidy (ftruncate c slot size) := by
  intro e m
  rcases ftruncateCases c slot size e m with ⟨_,same⟩ | ⟨_,_,_,same⟩ <;> rw [same]
  · exact refl_of Tidy m
  · exact sameTidy rfl rfl rfl

theorem truncateAtTidy (slot : Slot) (size : Nat) : Act.Keeps Tidy (truncateAt c slot size) := by
  intro e m
  rcases truncateAtCases c slot size e m with ⟨_,same⟩ | ⟨_,_,same⟩ <;> rw [same]
  · exact refl_of Tidy m
  · exact sameTidy rfl rfl rfl

theorem pwriteAtTidy (slot : Slot) (off : Nat) (data : Bytes) : Act.Keeps Tidy (pwriteAt c slot off data) := by
  intro e m
  rcases pwriteAtCases c slot off data e m with ⟨_,same⟩ | ⟨_,_,_,same⟩ <;> rw [same]
  · exact refl_of Tidy m
  · exact sameTidy rfl rfl rfl

end Others

end F3.Lib.Posix
