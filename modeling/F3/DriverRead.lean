import F3.DriverFetch
import F3.DriverService

/-! Reads of a file that is still being downloaded: what the wait in sfs_read waits for. -/
namespace F3.Driver.Service
open Lib (Bytes Prog)
open Lib.Posix

theorem waitEnds {observed : Nat → Nat} {upto target timeout round : Nat} :
    let waits := waitLoop observed upto target timeout round
    waits = timeout ∨ ¬ (observed (round + waits) < upto ∧ upto < target) := by
  induction timeout generalizing round with
  | zero => exact .inl rfl
  | succ timeout ih =>
    simp only [waitLoop]
    split
    · have later := @ih (round + 1)
      simp only [Nat.add_right_comm round 1] at later
      rw [Nat.add_right_cancel_iff,← Nat.add_assoc]
      exact later
    · rename_i fails
      exact .inr fails

theorem waitsNot {observed : Nat → Nat} {upto target : Nat} (beyond : target ≤ upto) (timeout round : Nat) :
    waitLoop observed upto target timeout round = 0 := by
  cases timeout with
  | zero => rfl
  | succ timeout => simp [waitLoop,Nat.not_lt.mpr beyond]

def waitsOf (observed : Nat → Nat) (size off target : Nat) : Nat := waitLoop observed (off + size) target 24 0

/- What a read is meant to wait for: the part it asks for of the published file. -/
def Awaited (observed : Nat → Nat) (size off target : Nat) : Prop :=
  waitsOf observed size off target = 24 ∨
    min (off + size) target ≤ observed (waitsOf observed size off target)

theorem awaitedIff {observed : Nat → Nat} {size off target : Nat} :
    Awaited observed size off target ↔ off + size < target ∨ target ≤ observed 0 := by
  unfold Awaited waitsOf
  by_cases inside : off + size < target
  · refine iff_of_true ?_ (.inl inside)
    have ends := @waitEnds observed (off + size) target 24 0
    refine ends.imp id fun fails => ?_
    rw [Nat.zero_add] at fails
    rw [Nat.min_eq_left (Nat.le_of_lt inside)]
    exact Nat.not_lt.mp fun short => fails ⟨short,inside⟩
  · have beyond := Nat.not_lt.mp inside
    simp [waitsNot beyond,Nat.min_eq_right beyond,inside]

theorem doReadRuns {size off : Nat} {fh : Handle} {out : Outside} {d : Desk} {f}
    (file : (d.driver.mount fh.side).file fh.fd = some f) (reads : f.access.reads = true)
    (reg : f.entry.kind = .reg) (calm : out.fault .readData = none) :
    doRead size off fh out d = some ((),{d with
      answers := d.answers ++ [.data ((((d.driver.mount fh.side).vol.nodes f.entry.ino).content.drop off).take size)]}) := by
  have same : d.driver.setMount fh.side (d.driver.mount fh.side) = d.driver := by
    cases fh.side <;> rfl
  have read : (d.driver.mount fh.side).pread fh.fd off size = .ok
      (((((d.driver.mount fh.side).vol.nodes f.entry.ino).content.drop off).take size),d.driver.mount fh.side) := by
    simp [Mount.pread,file,reads,Entry.isDir,reg]
  simp only [doRead,bind,call,calm,read,same]
  rfl

structure Reading (out : Outside) (d : Desk) (ino : Ref) (size off : Nat) (fh : Handle) (inode : Inode)
    (f : File) : Prop where
  known : getInode ino out.calls d.driver = some (inode,d.driver)
  file : (d.driver.mount fh.side).file fh.fd = some f
  reads : f.access.reads = true
  reg : f.entry.kind = .reg
  last : out.observed (waitsOf out.observed size off inode.targetSize) ≤
    ((d.driver.mount fh.side).vol.nodes f.entry.ino).content.length
  calm : out.fault .readData = none

theorem readWaits {out : Outside} {d : Desk} {ino : Ref} {size off : Nat} {fh : Handle} {inode f}
    (reading : Reading out d ino size off fh inode f) :
    (Awaited out.observed size off inode.targetSize ↔
      off + size < inode.targetSize ∨ inode.targetSize ≤ out.observed 0) ∧
    ∃ bytes, sfsRead ino size off fh out d = some ((),{d with
        answers := d.answers ++ [.data bytes]
        slept := d.slept + waitsOf out.observed size off inode.targetSize}) ∧
      (off + size < inode.targetSize ∨ inode.targetSize ≤ out.observed 0 →
        waitsOf out.observed size off inode.targetSize = 24 ∨
          min size (inode.targetSize - off) ≤ bytes.length) := by
  refine ⟨awaitedIff,(((d.driver.mount fh.side).vol.nodes f.entry.ino).content.drop off).take size,?_,?_⟩
  · have known : core (getInode ino) out d = some (inode,d) := by
      simp only [core,reading.known,Option.map_some]
    unfold sfsRead
    rw [Prog.bindEq known]
    exact @doReadRuns size off fh out {d with slept := d.slept + _} f reading.file reading.reads
      reading.reg reading.calm
  · intro condition
    refine (awaitedIff.mpr condition).imp id fun enough => ?_
    have last := reading.last
    simp only [List.length_take,List.length_drop]
    omega

open Fetch (produced consumer fetchRun)

def watching (observed : Nat → Nat) : Outside := ⟨calm 20,fun _ => none,observed,[]⟩

theorem partAwaited : ∃ v d bytes t, produced = some v ∧
    Lib.Run.run Fetch.step (consumer v) (fetchRun.take 3) = some d ∧
    sfsRead (.node 0) 2 0 ⟨.id,.fd 3⟩ (watching (min 2)) (opened d) = some ((),t) ∧
    t.answers = [.data bytes] ∧ t.slept = 2 ∧ 2 ≤ bytes.length := by
  obtain ⟨v,d,inode,f,made,ok,known,file,reads,reg,last,target⟩ :
      ∃ v d inode f, produced = some v ∧ Lib.Run.run Fetch.step (consumer v) (fetchRun.take 3) = some d ∧
        d.inode (.node 0) = some inode ∧ d.id.file (.fd 3) = some f ∧ f.access.reads = true ∧
        f.entry.kind = .reg ∧ (d.id.vol.nodes f.entry.ino).content.length = 2 ∧
        inode.targetSize = 3 ∧ inode.fd ≠ .closed := by
    refine ⟨_,_,_,_,rfl,rfl,rfl,rfl,?_⟩
    decide +kernel
  have waits : waitsOf (watching (min 2)).observed 2 0 inode.targetSize = 2 := by
    rw [target.1]
    decide
  have reading : Reading (watching (min 2)) (opened d) (.node 0) 2 0 ⟨.id,.fd 3⟩ inode f := by
    refine ⟨?_,file,reads,reg,?_,rfl⟩
    · have known : {d with replies := []}.inode (.node 0) = some inode := known
      simp [getInode,opened,known,target.2]
    · rw [waits]
      exact Nat.le_of_eq last.symm
  obtain ⟨_,bytes,ran,enough⟩ := readWaits reading
  rw [waits,target.1] at enough
  exact ⟨v,d,bytes,_,made,ok,ran,rfl,(Nat.zero_add _).trans waits,(enough (by decide)).resolve_left (by decide)⟩

theorem endNotAwaited : ∃ v d inode t, produced = some v ∧
    Lib.Run.run Fetch.step (consumer v) (fetchRun.take 3) = some d ∧
    d.inode (.node 0) = some inode ∧ inode.targetSize = 3 ∧ ¬ Awaited (fun _ => 2) 3 0 3 ∧
    sfsRead (.node 0) 3 0 ⟨.id,.fd 3⟩ (watching fun _ => 2) (opened d) = some ((),t) ∧
    t.answers = [.data [1,2]] ∧ t.slept = 0 := by
  refine ⟨_,_,_,_,rfl,rfl,rfl,rfl,?_,rfl,?_⟩
  · rw [awaitedIff]
    decide
  · decide +kernel

end F3.Driver.Service
