import F3.DriverPaths
import F3.TransferPath

/-! Which file is fetched. The path that the producer's driver records goes as text through the
attribute, the request line, and the first line of the connection, and is joined to a directory at
both ends. -/
namespace F3.TransferName
open Lib (Bytes)
open Lib.GoPath
open Lib.Posix (FileName components pieces)
open Lib.Run (run Meets)
open Driver.Paths (recordOf copyOf Record Recorded Kept stepRecorded)
open Client

theorem componentsNames (path : Bytes) : components path = names path := by
  have cut : ∀ b : Bytes, pieces b = b.splitOn slash := by
    intro b
    induction b with
    | nil => rfl
    | cons x rest ih =>
      rw [List.splitOn_cons_eq_if_modifyHead,← ih]
      by_cases parted : x = 47
      · simp [pieces,parted,slash]
      · have first : pieces rest ≠ [] := by rw [ih]; exact List.splitOn_ne_nil _ _
        obtain ⟨one,more,same⟩ := List.exists_cons_of_ne_nil first
        simp [pieces,parted,same,slash]
  rw [components,names,cut]

theorem fileNamesPlain {p : List FileName} {path : Bytes} (same : p.map Subtype.val = components path) :
    ∀ x ∈ names path, x ≠ dot ∧ x ≠ dotdot := by
  intro x mem
  rw [← componentsNames,← same] at mem
  obtain ⟨name,-,rfl⟩ := List.mem_map.mp mem
  exact ⟨name.2.2.2.2.1,name.2.2.2.2.2⟩

structure Plain (path servers : Bytes) : Prop where
  clean : Request.Clean path
  percent : 37 ∉ path
  servers : 0 ∉ servers ∧ 10 ∉ servers

section Text
variable {path servers : Bytes} (plain : Plain path servers)
include plain

theorem requestArrives {endByte : Nat} {sent : Bytes} {chunks : List Bytes} (noNul : 0 ∉ path)
    (fits : Download.request path endByte servers = some sent) (arrived : chunks.flatten = sent) :
    Request.fuseConnectionHandler chunks = some (path,Request.distinctServers servers) := by
  obtain ⟨free,oneLine,trimmed⟩ := plain.clean
  have number : 10 ∉ Driver.digits endByte := fun mem => absurd (Download.digitsPlain mem).1 (by decide)
  have message : 10 ∉ path ++ 44 :: (Driver.digits endByte ++ 44 :: servers) := by
    simp [oneLine,number,plain.servers.2]
  have stream : chunks.flatten = (path ++ 44 :: (Driver.digits endByte ++ 44 :: servers)) ++ [10] := by
    unfold Download.request at fits
    split at fits <;> try contradiction
    rw [arrived,← Option.some.inj fits,Download.requestLine,Download.cStringPlain noNul,
      Download.cStringPlain plain.servers.1]
    simp
  obtain ⟨r,others,read⟩ := Request.readLineCut message stream
  simp [Request.fuseConnectionHandler,read,Request.parseLine endByte free,trimmed]

theorem lineArrives {lines : List Bytes} (arrived : lines.flatten = Request.openConnection path) :
    Request.handleConnection lines = some path :=
  Request.receivedPlain plain.percent plain.clean.2.1 arrived

end Text

structure Root (tempDir : Bytes) (mount : List FileName) : Prop where
  rooted : isRooted tempDir = true
  names : names (clean tempDir) = mount.map Subtype.val

theorem joinRoot {tempDir path : Bytes} {mount p : List FileName} (root : Root tempDir mount)
    (same : p.map Subtype.val = components path) :
    names (join [tempDir,path]) = (mount ++ p).map Subtype.val := by
  rw [joinDown (fileNamesPlain same) root.rooted,root.names,← componentsNames,← same,List.map_append]

theorem runRecorded {opts fs id steps} {d : Driver.State} (fresh : ∀ ino, recordOf fs ino = none)
    (kept : Meets Driver.step Kept (Driver.boot opts fs id) steps)
    (ok : run Driver.step (Driver.boot opts fs id) steps = some d) : Recorded d := by
  have none : ∀ {q ino value}, ¬ Record (Driver.boot opts fs id).fs.vol q ino value := by
    intro q ino value here
    cases here.2.symm.trans (fresh ino)
  exact Lib.Run.invariant Kept Recorded stepRecorded
    ⟨rfl,fun here => absurd here none,fun here => absurd here none⟩ kept ok

theorem servedCopy {opts fs id steps} {d : Driver.State} (fresh : ∀ ino, recordOf fs ino = none)
    (kept : Meets Driver.step Kept (Driver.boot opts fs id) steps)
    (ok : run Driver.step (Driver.boot opts fs id) steps = some d) {q ino path}
    (linked : d.fs.vol.tree.find q = some ⟨ino,.reg⟩) (record : recordOf d.fs.vol ino = some path)
    {servers sent : Bytes} (plain : Plain path servers) (endByte : Nat)
    (fits : Download.request path endByte servers = some sent) {tempDir tempDir' : Bytes} {mount' : List FileName}
    (root : Root tempDir d.id.vol.mount) (root' : Root tempDir' mount') :
    ∃ p i, d.id.vol.tree.find p = some ⟨i,.reg⟩ ∧ copyOf d.pairs ino = some i ∧
      ∀ chunks : List Bytes, chunks.flatten = sent →
        Request.fuseConnectionHandler chunks = some (path,Request.distinctServers servers) ∧
        names (TransferPath.openConnection tempDir' path) = (mount' ++ p).map Subtype.val ∧
        ∀ lines : List Bytes, lines.flatten = Request.openConnection path →
          ∃ opened, TransferPath.handleConnection tempDir lines = some opened ∧
            names opened = (d.id.vol.mount ++ p).map Subtype.val := by
  have recorded := runRecorded fresh kept ok
  obtain ⟨p,i,same,found,copy⟩ := recorded.named ⟨linked,record⟩
  obtain ⟨-,noNul⟩ := recorded.text ⟨linked,record⟩
  refine ⟨p,i,found,copy,fun chunks arrived => ⟨requestArrives plain noNul fits arrived,joinRoot root' same,?_⟩⟩
  intro lines arrived
  refine ⟨join [tempDir,path],?_,joinRoot root same⟩
  rw [TransferPath.handleConnection,lineArrives plain arrived]
  rfl

-- "/a.id" from the ID root "/i" of the producer to "/t" of the consumer, with lines in pieces.
def recordedPath : Bytes := [47,97,46,105,100]

theorem createdServed : ∃ d ∈ run Driver.step (Driver.mounted true)
      [.request (.create .root Driver.nameId Driver.forWriting) (Driver.calm 10)],
    ∃ p i, d.id.vol.tree.find p = some ⟨i,.reg⟩ ∧ copyOf d.pairs 10 = some i ∧
      Request.fuseConnectionHandler [[47,97,46],[105,100,44,48,44,115,10]] = some (recordedPath,[[115]]) ∧
      names (TransferPath.openConnection [47,116,47] recordedPath) = [116] :: p.map Subtype.val ∧
      ∃ opened, TransferPath.handleConnection [47,105] [[47],[97,46,105,100,10]] = some opened ∧
        names opened = [105] :: p.map Subtype.val := by
  have made : ∃ d ∈ run Driver.step (Driver.mounted true)
      [.request (.create .root Driver.nameId Driver.forWriting) (Driver.calm 10)],
      d.fs.vol.tree.find [Driver.nameId] = some ⟨10,.reg⟩ ∧ recordOf d.fs.vol 10 = some recordedPath ∧
      d.id.vol.mount = [⟨[105],Driver.okI⟩] := by
    refine ⟨_,rfl,?_⟩
    decide +kernel
  obtain ⟨d,ok,linked,record,mount⟩ := made
  have plain : Plain recordedPath [115] := ⟨by decide,by decide,by decide⟩
  have root : Root [47,105] d.id.vol.mount := ⟨by decide,by rw [mount]; decide⟩
  have root' : Root [47,116,47] [⟨[116],by decide⟩] := ⟨by decide,by decide⟩
  obtain ⟨p,i,found,copy,text⟩ := servedCopy (fun _ => rfl) (by decide +kernel) ok linked record plain
    0 rfl root root'
  obtain ⟨read,writes,serves⟩ := text [[47,97,46],[105,100,44,48,44,115,10]] (by decide)
  obtain ⟨opened,opens,below⟩ := serves [[47],[97,46,105,100,10]] (by decide)
  rw [mount] at below
  exact ⟨d,ok,p,i,found,copy,read,writes,opened,opens,below⟩

end F3.TransferName
